import AdFilter.Domain

/-!
# Sets of domains

A set of domains is the strictly ascending list of its members, so two sets with the same members
are equal (`ext_mem`). `mem_insert` and `mem_union` say what the operations do to the members.
-/

namespace AdFilter

/-- A list that ascends strictly by a key is known by its members. -/
theorem eq_of_ascending {α κ : Type} [Ord κ] [Std.TransOrd κ] {key : α → κ} {a b : List α}
    (ha : a.Pairwise fun x y => compare (key x) (key y) = .lt)
    (hb : b.Pairwise fun x y => compare (key x) (key y) = .lt) (h : ∀ x, x ∈ a ↔ x ∈ b) : a = b := by
  have hnodup : ∀ {l : List α}, l.Pairwise (fun x y => compare (key x) (key y) = .lt) → l.Nodup :=
    fun hl => hl.imp fun hlt heq => by simp [heq] at hlt
  have hperm : a.Perm b := (List.perm_ext_iff_of_nodup (hnodup ha) (hnodup hb)).2 h
  refine hperm.eq_of_pairwise (fun x y _ _ hxy hyx => ?_) ha hb
  have hxx : compare (key x) (key x) = .lt := Std.TransCmp.lt_trans hxy hyx
  simp at hxx

/-- The members of a set, strictly ascending. -/
structure DomainSet where
  members : List Domain
  ascending : members.Pairwise (compare · · = .lt)

namespace DomainSet

@[ext]
theorem ext {a b : DomainSet} (h : a.members = b.members) : a = b := by
  cases a; cases b; cases h; rfl

instance : DecidableEq DomainSet := fun _ _ =>
  decidable_of_iff _ ⟨ext, fun h => h ▸ rfl⟩

instance : Membership Domain DomainSet where
  mem s d := d ∈ s.members

theorem mem_def {s : DomainSet} {d : Domain} : d ∈ s ↔ d ∈ s.members :=
  Iff.rfl

def empty : DomainSet where
  members := []
  ascending := .nil

instance : EmptyCollection DomainSet := ⟨empty⟩

instance : Inhabited DomainSet := ⟨empty⟩

@[simp]
theorem not_mem_empty (d : Domain) : d ∉ (∅ : DomainSet) :=
  List.not_mem_nil

def isEmpty (s : DomainSet) : Bool :=
  s.members.isEmpty

def size (s : DomainSet) : Nat :=
  s.members.length

/-! ## Insertion -/

def insertInto (d : Domain) : List Domain → List Domain
  | [] => [d]
  | e :: s =>
    match compare d e with
    | .lt => d :: e :: s
    | .eq => e :: s
    | .gt => e :: insertInto d s

theorem mem_insertInto {d e : Domain} {s : List Domain} : e ∈ insertInto d s ↔ e = d ∨ e ∈ s := by
  induction s with
  | nil => simp [insertInto]
  | cons x s ih =>
    rw [insertInto]
    split
    · simp
    · rename_i h
      cases Std.LawfulEqOrd.eq_of_compare h
      simp
    · simp only [List.mem_cons, ih]
      grind

theorem insertInto_ascending {d : Domain} {s : List Domain}
    (h : s.Pairwise (compare · · = .lt)) : (insertInto d s).Pairwise (compare · · = .lt) := by
  induction s with
  | nil => simp [insertInto]
  | cons x s ih =>
    obtain ⟨hx, hs⟩ := List.pairwise_cons.1 h
    rw [insertInto]
    split
    · rename_i hlt
      refine List.pairwise_cons.2 ⟨?_, h⟩
      intro y hy
      rcases List.mem_cons.1 hy with rfl | hy
      · exact hlt
      · exact Std.TransCmp.lt_trans hlt (hx y hy)
    · exact h
    · rename_i hgt
      refine List.pairwise_cons.2 ⟨?_, ih hs⟩
      intro y hy
      rcases mem_insertInto.1 hy with rfl | hy
      · exact Std.OrientedCmp.lt_of_gt hgt
      · exact hx y hy

def insert (s : DomainSet) (d : Domain) : DomainSet where
  members := insertInto d s.members
  ascending := insertInto_ascending s.ascending

/-- Whether insertion puts the domain into a strictly ascending list, or meets it there. -/
def isNewIn (d : Domain) : List Domain → Bool
  | [] => true
  | e :: s =>
    match compare d e with
    | .lt => true
    | .eq => false
    | .gt => isNewIn d s

def insertNew (s : DomainSet) (d : Domain) : Bool × DomainSet :=
  (isNewIn d s.members, s.insert d)

def contains (s : DomainSet) (d : Domain) : Bool :=
  s.members.contains d

def union (s t : DomainSet) : DomainSet :=
  t.members.foldl insert s

def ofList (ds : List Domain) : DomainSet :=
  ds.foldl insert ∅

theorem mem_insert {s : DomainSet} {d e : Domain} : e ∈ s.insert d ↔ e = d ∨ e ∈ s :=
  mem_insertInto

theorem mem_foldl_insert {ds : List Domain} {s : DomainSet} {e : Domain} :
    e ∈ ds.foldl insert s ↔ e ∈ s ∨ e ∈ ds := by
  induction ds generalizing s with
  | nil => simp
  | cons d ds ih => rw [List.foldl_cons, ih, mem_insert]; grind

theorem mem_union {s t : DomainSet} {e : Domain} : e ∈ s.union t ↔ e ∈ s ∨ e ∈ t :=
  mem_foldl_insert

theorem mem_ofList {ds : List Domain} {e : Domain} : e ∈ ofList ds ↔ e ∈ ds := by
  simp [ofList, mem_foldl_insert]

/-- Whether some member covers the domain. -/
def covers (s : DomainSet) (d : Domain) : Bool :=
  s.members.any (·.covers d)

theorem covers_iff {s : DomainSet} {page : Domain} :
    s.covers page = true ↔ ∃ d ∈ s, d.covers page = true :=
  List.any_eq_true

theorem isEmpty_iff {s : DomainSet} : s.isEmpty = true ↔ ∀ d, d ∉ s := by
  rw [isEmpty, List.isEmpty_iff, List.eq_nil_iff_forall_not_mem]
  exact Iff.rfl

instance : ToString DomainSet where
  toString s := ",".intercalate (s.members.map toString)

/-! ## Order -/

/-- Sets are ordered as the ascending lists of their members. -/
instance : Ord DomainSet where
  compare a b := compare a.members b.members

instance : Std.TransOrd DomainSet where
  eq_swap := Std.OrientedOrd.eq_swap (α := List Domain)
  isLE_trans := Std.TransOrd.isLE_trans (α := List Domain)

instance : Std.LawfulEqOrd DomainSet where
  compare_self := Std.ReflOrd.compare_self (α := List Domain)
  eq_of_compare h := ext (Std.LawfulEqOrd.eq_of_compare (α := List Domain) h)

theorem ext_mem {s t : DomainSet} (h : ∀ d, d ∈ s ↔ d ∈ t) : s = t :=
  ext (eq_of_ascending s.ascending t.ascending h)

theorem eq_empty_iff {s : DomainSet} : s = ∅ ↔ ∀ d, d ∉ s := by
  constructor
  · rintro rfl
    exact not_mem_empty
  · exact fun h => ext_mem fun d => iff_of_false (h d) (not_mem_empty d)

end DomainSet

end AdFilter
