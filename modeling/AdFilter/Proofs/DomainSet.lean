import AdFilter.DomainSet
import AdFilter.Proofs.Domain.Order
import AdFilter.Proofs.Text.ByteOrder
import Mathlib.Data.Finset.Card

/-!
# Sets that grow

Sets come about by insertions and unions, and nothing is left in them of how they did: two sets are
equal exactly if the same hosts were put into them, but for case (`Assembly.set_laws`). `mem_set`
says what an assembled set has, from which the rest follows, since a set has its members in one order
alone.
-/

namespace AdFilter

namespace Domain

theorem ofHost_toString_ofHost (host : String) : ofHost (toString (ofHost host)) = ofHost host :=
  ofHost_toString_iff.2 (isNormal_ofHost host)

theorem ofHost_eq_ofHost_iff {a b : String} : ofHost a = ofHost b ↔ a.toLower = b.toLower := by
  constructor
  · intro h
    rw [← toString_ofHost, ← toString_ofHost, h]
  · intro h
    rw [← ofHost_toString_ofHost a, ← ofHost_toString_ofHost b, toString_ofHost, toString_ofHost, h]

def labelBytes (d : Domain) : List (List UInt8) :=
  d.labels.map (Text.utf8 ·.toList)

theorem compare_eq_lt_iff {a b : Domain} : compare a b = .lt ↔ a.labelBytes < b.labelBytes :=
  Text.compare_list_eq_lt_iff

end Domain

namespace DomainSet

/-! ## One step -/

section
variable {s t : DomainSet} {d : Domain}

/-- In an ascending list a domain is looked for no further than up to a greater one. -/
theorem isNewIn_iff {members : List Domain} (h : members.Pairwise (compare · · = .lt)) :
    isNewIn d members = true ↔ d ∉ members := by
  induction members with
  | nil => simp [isNewIn]
  | cons e members ih =>
    obtain ⟨hfirst, hrest⟩ := List.pairwise_cons.1 h
    rw [isNewIn, List.mem_cons, not_or]
    split
    · next hlt =>
      have hne : d ≠ e := by
        rintro rfl
        simp at hlt
      have hnot : d ∉ members := by
        intro hmem
        have hself := Std.TransCmp.lt_trans hlt (hfirst d hmem)
        simp at hself
      exact iff_of_true rfl ⟨hne, hnot⟩
    · next heq =>
      exact iff_of_false (by simp) fun hnot => hnot.1 (Std.LawfulEqOrd.eq_of_compare heq)
    · next hgt =>
      have hne : d ≠ e := by
        rintro rfl
        simp at hgt
      rw [ih hrest, and_iff_right hne]

theorem insertNew_fst_iff : (s.insertNew d).1 = true ↔ d ∉ s :=
  isNewIn_iff s.ascending

theorem nodup_members (s : DomainSet) : s.members.Nodup := by
  refine s.ascending.imp ?_
  rintro d _ hlt rfl
  simp at hlt

theorem covers_union {page : Domain} : (s.union t).covers page = (s.covers page || t.covers page) := by
  rw [Bool.eq_iff_iff, Bool.or_eq_true]
  simp only [covers_iff, mem_union, or_and_right, exists_or]

end

/-! ## Many steps -/

/-- How a set comes about from the empty one, by insertions of hosts and unions with sets that came
about in the same way. -/
inductive Assembly where
  | empty
  | insert (before : Assembly) (host : String)
  | union (before other : Assembly)

namespace Assembly

def set : Assembly → DomainSet
  | empty => ∅
  | insert before host => (before.set.insertNew (.ofHost host)).2
  | union before other => before.set.union other.set

/-- The hosts that are inserted, also into the sets that are united. -/
def hosts : Assembly → List String
  | empty => []
  | insert before host => before.hosts ++ [host]
  | union before other => before.hosts ++ other.hosts

/-- The hosts but for case. -/
def names (a : Assembly) : List String :=
  a.hosts.map String.toLower

theorem mem_set {a : Assembly} {d : Domain} : d ∈ a.set ↔ ∃ host ∈ a.hosts, Domain.ofHost host = d := by
  induction a with
  | empty => simp [set, hosts]
  | insert before host ih =>
    have hinsert : d ∈ (insert before host).set ↔ d = .ofHost host ∨ d ∈ before.set := mem_insert
    simp only [hinsert, ih, hosts, List.mem_append, List.mem_singleton, or_and_right, exists_or,
      exists_eq_left]
    rw [or_comm, eq_comm]
  | union before other ihbefore ihother =>
    rw [set, mem_union, ihbefore, ihother]
    simp only [hosts, List.mem_append, or_and_right, exists_or]

theorem mem_map_toString_members {a : Assembly} {name : String} :
    name ∈ a.set.members.map toString ↔ name ∈ a.names := by
  simp only [List.mem_map, ← mem_def, mem_set, names]
  constructor
  · rintro ⟨_, ⟨host, hhost, rfl⟩, rfl⟩
    exact ⟨host, hhost, (Domain.toString_ofHost host).symm⟩
  · rintro ⟨host, hhost, rfl⟩
    exact ⟨_, ⟨host, hhost, rfl⟩, Domain.toString_ofHost host⟩

theorem nodup_map_toString_members (a : Assembly) : (a.set.members.map toString).Nodup := by
  refine a.set.nodup_members.map_on ?_
  intro d hd e he heq
  obtain ⟨host, -, rfl⟩ := mem_set.1 hd
  obtain ⟨host', -, rfl⟩ := mem_set.1 he
  rwa [Domain.toString_ofHost, Domain.toString_ofHost, ← Domain.ofHost_eq_ofHost_iff] at heq

theorem size_set (a : Assembly) : a.set.size = a.names.toFinset.card := by
  have hnames : a.names.toFinset = (a.set.members.map toString).toFinset := by
    ext name
    rw [List.mem_toFinset, List.mem_toFinset, mem_map_toString_members]
  rw [hnames, List.toFinset_card_of_nodup a.nodup_map_toString_members, List.length_map, size]

theorem covers_set_iff {a : Assembly} {page : Domain} :
    a.set.covers page = true ↔ ∃ host ∈ a.hosts, (Domain.ofHost host).covers page = true := by
  simp only [covers_iff, mem_set]
  constructor
  · rintro ⟨_, ⟨host, hhost, rfl⟩, hcovers⟩
    exact ⟨host, hhost, hcovers⟩
  · rintro ⟨host, hhost, hcovers⟩
    exact ⟨_, ⟨host, hhost, rfl⟩, hcovers⟩

theorem set_eq_set_iff {a b : Assembly} :
    a.set = b.set ↔ ∀ name, name ∈ a.names ↔ name ∈ b.names := by
  constructor
  · intro h name
    rw [← mem_map_toString_members, ← mem_map_toString_members, h]
  · intro h
    have hsubset : ∀ {a b : Assembly}, (∀ name ∈ a.names, name ∈ b.names) →
        ∀ d ∈ a.set, d ∈ b.set := by
      intro a b h d hd
      obtain ⟨host, hhost, rfl⟩ := mem_set.1 hd
      obtain ⟨host', hhost', heq⟩ := List.mem_map.1 (h _ (List.mem_map_of_mem hhost))
      exact mem_set.2 ⟨host', hhost', Domain.ofHost_eq_ofHost_iff.2 heq⟩
    exact ext_mem fun d =>
      ⟨hsubset (fun name => (h name).1) d, hsubset (fun name => (h name).2) d⟩

/-- What can be seen of a set that was put together in some way: the order of its members, what a
further insertion says, how many there are, which pages they cover, and what tells it from another
one. -/
theorem set_laws (a b : Assembly) :
    (a.set.members.Pairwise fun d e => d.labelBytes < e.labelBytes) ∧
    (∀ d, (a.set.insertNew d).1 = true ↔ d ∉ a.set) ∧
    (∀ host, Domain.ofHost host ∈ a.set ↔ host.toLower ∈ a.names) ∧
    a.set.size = a.names.toFinset.card ∧
    (∀ page, a.set.covers page = true ↔
      ∃ host ∈ a.hosts, (Domain.ofHost host).covers page = true) ∧
    (∀ page, (a.set.union b.set).covers page = (a.set.covers page || b.set.covers page)) ∧
    (a.set = b.set ↔ ∀ name, name ∈ a.names ↔ name ∈ b.names) ∧
    ((∀ name, name ∈ a.names ↔ name ∈ b.names) → toString a.set = toString b.set) := by
  refine ⟨?_, fun _ => insertNew_fst_iff, fun host => ?_, a.size_set, fun _ => covers_set_iff,
    fun _ => covers_union, set_eq_set_iff, fun h => ?_⟩
  · exact a.set.ascending.imp Domain.compare_eq_lt_iff.1
  · simp only [mem_set, Domain.ofHost_eq_ofHost_iff, names, List.mem_map]
  · rw [set_eq_set_iff.2 h]

/-- A union with a host that is there already, in another case, and insertions in another order. -/
theorem set_laws_case :
    let united : Assembly := .union (.insert .empty "B.com") (.insert (.insert .empty "a.COM") "b.com")
    let inserted : Assembly := .insert (.insert (.insert .empty "a.com") "b.COM") "A.com"
    united.set = inserted.set ∧ toString united.set = toString inserted.set ∧
      united.set.size = 2 ∧ (united.set.insertNew (.ofHost "A.Com")).1 = false := by
  intro united inserted
  have hunited : united.names = ["b.com", "a.com", "b.com"] := by decide +kernel
  have hinserted : inserted.names = ["a.com", "b.com", "a.com"] := by decide +kernel
  have hnames : ∀ name, name ∈ united.names ↔ name ∈ inserted.names := by
    rw [hunited, hinserted]
    grind
  obtain ⟨-, hnew, hmem, hsize, -, -, hequal, hdisplay⟩ := set_laws united inserted
  refine ⟨hequal.2 hnames, hdisplay hnames, ?_, ?_⟩
  · rw [hsize, hunited]
    decide +kernel
  · rw [← Bool.not_eq_true, hnew, not_not, hmem, hunited]
    decide +kernel

end Assembly

end DomainSet

end AdFilter
