import AdFilter.CommandLine.Session
import AdFilter.Proofs.Engine.Create
import AdFilter.Proofs.FilterList.Append

/-!
# Rule files one behind the other

A session does not depend on how its rules are divided into files: the files that can be opened are
loaded like a single one that holds them all, each with its last line ended (`joined`). A file that
cannot be opened leaves nothing behind but a note.
-/

namespace AdFilter.CommandLine.Session

open FilterList (Source Loading Reading endLine load loadSource)

/-- The path of a rule file, and what opening it gave. -/
abbrev RuleFile := String × Except ReadError Source

/-- The file can be read to its end, if it can be opened. -/
def IsWhole (file : RuleFile) : Prop :=
  ∀ source, file.2 = .ok source → source.failure = none

/-- The bytes of the file, with a line feed behind a last line that lacks one. -/
def bytesOf : RuleFile → List UInt8
  | (_, .ok source) => endLine source.chunks.flatten
  | (_, .error _) => []

def joined (files : List RuleFile) : List UInt8 :=
  files.flatMap bytesOf

def opened (files : List RuleFile) : List RuleFile :=
  files.filter (·.2.isOk)

/-! ## The lists -/

namespace Lists

def loading (lists : Lists) : Loading where
  index := lists.index
  stats := lists.load

/-- The lists as if nothing had been said about them. -/
def silent (lists : Lists) : Lists :=
  { lists with notes := "" }

theorem exists_addFile {source : Source} (h : source.failure = none) (verbose : Bool) (lists : Lists)
    (position : Nat) (path : String) :
    ∃ lists', lists.addFile verbose position path (.ok source) = .ok lists' ∧
      lists'.loading =
        (source.chunks.flatten.foldl Reading.byte { toLoading := lists.loading }).finish := by
  obtain ⟨chunks, failure⟩ := source
  obtain rfl : failure = none := h
  rw [addFile, FilterList.loadSource_chunks]
  exact ⟨_, rfl, (Reading.finish_foldl_byte_eq lists.loading chunks.flatten).symm⟩

/-- Loading a file takes no notice of what was said, nor of where the file stands. -/
theorem addFile_silent {lists lists' : Lists} (h : lists.silent = lists'.silent) (verbose : Bool)
    (position position' : Nat) (path : String) (source : Source) :
    (∃ notes notes' message,
      lists.addFile verbose position path (.ok source) = .error (notes, message) ∧
      lists'.addFile verbose position' path (.ok source) = .error (notes', message)) ∨
    ∃ added added', lists.addFile verbose position path (.ok source) = .ok added ∧
      lists'.addFile verbose position' path (.ok source) = .ok added' ∧
      added.silent = added'.silent := by
  obtain ⟨index, load, count, notes⟩ := lists
  obtain ⟨index', load', count', notes'⟩ := lists'
  cases h
  simp only [addFile]
  cases FilterList.loadSource index source with
  | mk stats loaded =>
    cases stats with
    | error e => exact .inl ⟨_, _, _, rfl, rfl⟩
    | ok stats => exact .inr ⟨_, _, rfl, rfl, rfl⟩

end Lists

variable {verbose : Bool} {lists lists' : Lists} {files : List RuleFile}

/-- Files that can be read are loaded like the bytes of all of them. -/
theorem exists_loadLists (h : ∀ file ∈ files, IsWhole file) (verbose : Bool) (lists : Lists)
    (position : Nat) :
    ∃ lists', loadLists verbose lists position files = .ok lists' ∧
      (joined files).foldl Reading.byte { toLoading := lists.loading } =
        { toLoading := lists'.loading } := by
  induction files generalizing lists position with
  | nil => exact ⟨lists, rfl, rfl⟩
  | cons file files ih =>
    obtain ⟨hfile, hfiles⟩ := List.forall_mem_cons.1 h
    obtain ⟨path, result⟩ := file
    cases result with
    | error e => exact ih hfiles { lists with notes := _ } (position + 1)
    | ok source =>
      obtain ⟨lists₁, hadd, hfinish⟩ :=
        lists.exists_addFile (hfile source rfl) verbose position path
      obtain ⟨lists', hload, hrest⟩ := ih hfiles lists₁ (position + 1)
      refine ⟨lists', by rw [loadLists, hadd]; exact hload, ?_⟩
      rw [← hrest, hfinish, ← Reading.foldl_byte_endLine, ← List.foldl_append]
      rfl

theorem loadLists_opened (h : lists.silent = lists'.silent) (position position' : Nat) :
    ((loadLists verbose lists position files).mapError Prod.snd).map Lists.silent =
      ((loadLists verbose lists' position' (opened files)).mapError Prod.snd).map Lists.silent := by
  induction files generalizing lists lists' position position' with
  | nil => exact congrArg Except.ok h
  | cons file files ih =>
    obtain ⟨path, result⟩ := file
    cases result with
    | error e =>
      obtain ⟨noted, hadd, hnoted⟩ : ∃ noted,
          lists.addFile verbose position path (.error e) = .ok noted ∧
            noted.silent = lists.silent :=
        ⟨_, rfl, rfl⟩
      rw [loadLists, hadd]
      exact ih (hnoted.trans h) (position + 1) position'
    | ok source =>
      have hopened : opened ((path, .ok source) :: files) = (path, .ok source) :: opened files := rfl
      rw [hopened, loadLists, loadLists]
      rcases Lists.addFile_silent h verbose position position' path source with
        ⟨_, _, _, hadd, hadd'⟩ | ⟨added, added', hadd, hadd', hadded⟩
      · rw [hadd, hadd']
        rfl
      · rw [hadd, hadd']
        exact ih hadded (position + 1) (position' + 1)

/-! ## The session -/

/-- The index of a session, and the numbers of its element-hide entries if they were merged. -/
def merged (config : Engine.Config) (index : RuleIndex) : Option HideIndex.MergeCounts × RuleIndex :=
  if config.mergeByScope then (some index.optimize.1, index.optimize.2) else (none, index)

def ofLists (config : Engine.Config) (lists : Lists) : Except String Session :=
  match Engine.create (merged config lists.index).2 config with
  | .error e => .error ("Invalid configuration: " ++ e.message)
  | .ok engine => .ok {
      engine
      report := { lists := lists.count, load := lists.load, hides := (merged config lists.index).1 } }

/-- What a session is made of, or why there is none, without what was said. -/
def withoutNotes (result : Except (String × String) (String × Session)) : Except String Session :=
  (result.mapError Prod.snd).map Prod.snd

theorem withoutNotes_create (config : Engine.Config) (h : files ≠ []) :
    withoutNotes (create config verbose files) =
      ((loadLists verbose {} 0 files).mapError Prod.snd).bind (ofLists config) := by
  unfold create
  simp only [List.isEmpty_iff, h, if_false]
  cases loadLists verbose {} 0 files with
  | error e => rfl
  | ok lists =>
    show withoutNotes (match Engine.create (merged config lists.index).2 config with
      | .error e => .error (lists.notes, "Invalid configuration: " ++ e.message)
      | .ok engine => .ok (lists.notes, {
          engine
          report := {
            lists := lists.count
            load := lists.load
            hides := (merged config lists.index).1 } })) =
        ofLists config lists
    unfold ofLists
    cases Engine.create (merged config lists.index).2 config <;> rfl

theorem bind_ofLists (config : Engine.Config) (loaded : Except String Lists) :
    loaded.bind (ofLists config) = (loaded.map Lists.silent).bind (ofLists config) := by
  cases loaded <;> rfl

theorem create_opened (config : Engine.Config) (h : opened files ≠ []) :
    withoutNotes (create config verbose files) =
      withoutNotes (create config verbose (opened files)) := by
  have hne : files ≠ [] := by
    rintro rfl
    exact h rfl
  rw [withoutNotes_create config hne, withoutNotes_create config h, bind_ofLists,
    loadLists_opened rfl 0 0, ← bind_ofLists]

/-- A session without what its report says of the number of files. -/
def parts (s : Session) : Engine × LoadStats × Option HideIndex.MergeCounts :=
  (s.engine, s.report.load, s.report.hides)

theorem parts_ofLists (config : Engine.Config) (h : lists.loading = lists'.loading) :
    (ofLists config lists).map parts = (ofLists config lists').map parts := by
  obtain ⟨index, load, count, notes⟩ := lists
  obtain ⟨index', load', count', notes'⟩ := lists'
  cases h
  unfold ofLists
  cases Engine.create (merged config index).2 config <;> rfl

theorem exists_ofLists {config : Engine.Config} (h : 0 < config.cacheCapacity) (lists : Lists) :
    ∃ session, ofLists config lists = .ok session := by
  obtain ⟨engine, hcreate⟩ := Engine.exists_create (merged config lists.index).2 config h
  unfold ofLists
  rw [hcreate]
  exact ⟨_, rfl⟩

/-- A session can be made of files that can be read, if there are any and the cache has room. -/
theorem exists_create {config : Engine.Config} (h : ∀ file ∈ files, IsWhole file) (hne : files ≠ [])
    (hcapacity : 0 < config.cacheCapacity) (verbose : Bool) :
    ∃ notes session, create config verbose files = .ok (notes, session) := by
  obtain ⟨lists, hload, -⟩ := exists_loadLists h verbose {} 0
  obtain ⟨session, hsession⟩ := exists_ofLists hcapacity lists
  have hcreate : withoutNotes (create config verbose files) = .ok session := by
    rw [withoutNotes_create config hne, hload]
    exact hsession
  cases hresult : create config verbose files with
  | error e =>
    rw [hresult] at hcreate
    cases hcreate
  | ok result => exact ⟨result.1, result.2, rfl⟩

theorem exists_engine_of_create {config : Engine.Config} {notes : String} {session : Session}
    (h : create config verbose files = .ok (notes, session)) :
    ∃ index, Engine.create index config = .ok session.engine := by
  have hne : files ≠ [] := by
    rintro rfl
    cases h
  have hlists : withoutNotes (create config verbose files) = _ := withoutNotes_create config hne
  rw [h] at hlists
  cases hload : loadLists verbose {} 0 files with
  | error e =>
    rw [hload] at hlists
    cases hlists
  | ok lists =>
    rw [hload] at hlists
    refine ⟨(merged config lists.index).2, ?_⟩
    have hsession : ofLists config lists = .ok session := hlists.symm
    unfold ofLists at hsession
    split at hsession
    · cases hsession
    · next engine hengine =>
      cases hsession
      exact hengine

/-- Lists are loaded line by line. A text behind another one adds what it gives by itself, and rule
files give the session of one file that has all their lines, whether or not some are missing. -/
theorem loads_line_by_line :
    (∀ (index : RuleIndex) (a b : String), a = "" ∨ a.toList.getLast? = some '\n' →
      load index (a ++ b) =
        { index := (load (load index a).index b).index
          stats := (load index a).stats.merge (load (load index a).index b).stats }) ∧
    ∀ (config : Engine.Config) (verbose : Bool) (files : List RuleFile),
      (∀ file ∈ files, IsWhole file) →
      (∃ lists, loadLists verbose {} 0 files = .ok lists ∧
        loadSource {} { chunks := [joined files] } = (.ok lists.load, lists.index)) ∧
      (files ≠ [] → ∀ path : String,
        (withoutNotes (create config verbose files)).map parts =
          (withoutNotes
            (create config verbose [(path, .ok { chunks := [joined files] })])).map parts) ∧
      (files ≠ [] → 0 < config.cacheCapacity →
        ∃ session, withoutNotes (create config verbose files) = .ok session) ∧
      (opened files ≠ [] → withoutNotes (create config verbose files) =
        withoutNotes (create config verbose (opened files))) ∧
      (files = [] → create config verbose files = .error ("", "No rule files specified")) := by
  refine ⟨fun index a b h => FilterList.load_append index h b, fun config verbose files h => ?_⟩
  obtain ⟨lists, hload, hbytes⟩ := exists_loadLists h verbose {} 0
  have hsource : loadSource {} { chunks := [joined files] } = (.ok lists.load, lists.index) := by
    have hread : (joined files).foldl Reading.byte { index := {} } = { toLoading := lists.loading } :=
      hbytes
    rw [FilterList.loadSource_chunks, List.flatten_singleton, hread]
    rfl
  refine ⟨⟨lists, hload, hsource⟩, fun hne path => ?_, fun hne hcapacity => ?_,
    create_opened config, ?_⟩
  · have hsingle : ∃ single, loadLists verbose {} 0 [(path, .ok { chunks := [joined files] })] =
        .ok single ∧ single.loading = lists.loading := by
      rw [loadLists, Lists.addFile, hsource]
      exact ⟨_, rfl, by simp [Lists.loading]⟩
    obtain ⟨single, hsingle, hloading⟩ := hsingle
    rw [withoutNotes_create config hne, withoutNotes_create config (by simp), hload, hsingle]
    exact parts_ofLists config hloading.symm
  · rw [withoutNotes_create config hne, hload]
    exact exists_ofLists hcapacity lists
  · rintro rfl
    rfl

/-- A file that ends in the middle of a character, one that is missing, and one that is complete. -/
theorem loads_line_by_line_cut :
    let files : List RuleFile := [("a.txt", .ok { chunks := [[0x2F], [0x61, 0x64, 0xC3]] }),
      ("none.txt", .error .notFound), ("b.txt", .ok { chunks := [[0x23, 0x23, 0x62, 0x0D, 0x0A]] })]
    (load {} ("/ad\r\n" ++ "##.b")).stats =
        ({ lines := 1, rules := 1, blankKeywords := 1 } : LoadStats).merge
          { lines := 1, hides := 1 } ∧
      (∃ lists, loadLists false {} 0 files = .ok lists ∧
        lists.load = { lines := 2, rules := 1, hides := 1, blankKeywords := 1 }) ∧
      ∃ session, withoutNotes (create {} false files) = .ok session ∧
        withoutNotes (create {} false (opened files)) = .ok session := by
  intro files
  obtain ⟨happend, hfiles⟩ := loads_line_by_line
  have hwhole : ∀ file ∈ files, IsWhole file := by
    intro file hfile source hsource
    simp only [files, List.mem_cons, List.not_mem_nil, or_false] at hfile
    rcases hfile with rfl | rfl | rfl <;> cases hsource <;> rfl
  obtain ⟨⟨lists, hload, hsource⟩, -, hsession, hopened, -⟩ := hfiles {} false files hwhole
  refine ⟨?_, ⟨lists, hload, ?_⟩, ?_⟩
  · rw [happend {} "/ad\r\n" "##.b" (.inr (by decide))]
    decide +kernel
  · have hstats : (loadSource {} { chunks := [joined files] }).1.toOption =
        some { lines := 2, rules := 1, hides := 1, blankKeywords := 1 } := by
      decide +kernel
    rw [hsource] at hstats
    exact Option.some.inj hstats
  · obtain ⟨session, hcreate⟩ := hsession (by decide) (by decide)
    exact ⟨session, hcreate, (hopened (by decide)).symm.trans hcreate⟩

end AdFilter.CommandLine.Session
