import AdFilter.CommandLine.Commands
import AdFilter.Proofs.CommandLine.Session
import AdFilter.Proofs.Engine.Cache
import AdFilter.Proofs.Text.Encoding
import AdFilter.Proofs.Text.Words

/-!
# Requests line by line

The filter command answers every line as if it were alone: the reply to a request is what the rules
say of it (`Replies`), though it may come from the cache that all lines share. The invariant of the
run is that the cache remembers what the rules say (`run_filterLines`). The lines are those up to the
first that is no text (`HasLines`), where the command fails.
-/

namespace AdFilter.CommandLine

open Text (HasWords IsWord utf8)

/-! ## What is asked, and what is replied -/

/-- The bytes are lines of text, up to their end or up to a line that is no text. -/
inductive HasLines : List UInt8 → List (List Char) → Bool → Prop where
  | last {line : List Char} : '\n' ∉ line → HasLines (utf8 line) [line] true
  | noText {bad rest : List UInt8} : 10 ∉ bad → (∀ text, bad ≠ utf8 text) →
      (∀ b ∈ rest.head?, b = 10) → HasLines (bad ++ rest) [] false
  | line {line : List Char} {rest : List UInt8} {lines : List (List Char)} {complete : Bool} :
      '\n' ∉ line → HasLines rest lines complete →
      HasLines (utf8 line ++ 10 :: rest) (line :: lines) complete

/-- A line asks for an address on behalf of a source, which is empty if there is but one word. -/
inductive Asks (line : List Char) : List Char → List Char → Prop where
  | sourced {source url : List Char} {more : List (List Char)} :
      HasWords line (source :: url :: more) → Asks line source url
  | bare {url : List Char} : HasWords line [url] → Asks line [] url

/-- The reply to a request for an address: another page if it is blocked, and else the address. -/
inductive IsReply (url : List Char) : Verdict → List Char → Prop where
  | blocked {rule : Option Rule} : IsReply url (.blocked rule) "about:blank".toList
  | passed {verdict : Verdict} : (∀ rule, verdict ≠ .blocked rule) → IsReply url verdict url

/-- The replies to lines, where each is answered for itself. -/
inductive Replies (engine : Engine) : List (List Char) → List (List Char) → Prop where
  | done : Replies engine [] []
  | silent {line : List Char} {lines replies : List (List Char)} : HasWords line [] →
      Replies engine lines replies → Replies engine (line :: lines) replies
  | request {line source url reply : List Char} {lines replies : List (List Char)} :
      Asks line source url →
      IsReply url (engine.evaluate (String.ofList source) (String.ofList url)) reply →
      Replies engine lines replies → Replies engine (line :: lines) (reply :: replies)

/-! ## Lines -/

theorem split_newline {first : List UInt8} (h : 10 ∉ first) (rest : List UInt8) :
    Text.split (· == 10) (first ++ 10 :: rest) = first :: Text.split (· == 10) rest := by
  rw [Text.split_append_cons (p := (· == 10)) rfl, Text.split_of_not_mem h, List.singleton_append]

theorem exists_hasLines (bytes : List UInt8) : ∃ lines complete, HasLines bytes lines complete := by
  by_cases hmem : 10 ∈ bytes
  · obtain ⟨first, rest, rfl, hfirst⟩ := List.eq_append_cons_of_mem hmem
    cases hdecode : Text.decode? first with
    | none => exact ⟨[], false, .noText hfirst (Text.decode?_eq_none_iff.1 hdecode) (by simp)⟩
    | some line =>
      obtain rfl := Text.decode?_eq_some_iff.1 hdecode
      obtain ⟨lines, complete, hlines⟩ := exists_hasLines rest
      exact ⟨line :: lines, complete, .line (mt Text.newline_mem_utf8_iff.2 hfirst) hlines⟩
  · cases hdecode : Text.decode? bytes with
    | none =>
      have hnoText : HasLines (bytes ++ []) [] false :=
        .noText hmem (Text.decode?_eq_none_iff.1 hdecode) (by simp)
      rw [List.append_nil] at hnoText
      exact ⟨[], false, hnoText⟩
    | some line =>
      obtain rfl := Text.decode?_eq_some_iff.1 hdecode
      exact ⟨[line], true, .last (mt Text.newline_mem_utf8_iff.2 hmem)⟩
termination_by bytes.length

/-- The pieces between line feeds are the bytes of the lines. Behind them there is nothing if the lines
are complete, and else a piece that is no text. -/
theorem HasLines.exists_tail {bytes : List UInt8} {lines : List (List Char)} {complete : Bool}
    (h : HasLines bytes lines complete) :
    ∃ tail, Text.split (· == 10) bytes = lines.map utf8 ++ tail ∧
      (complete = true ∧ tail = [] ∨
        complete = false ∧ ∃ bad rest, tail = bad :: rest ∧ Text.decode? bad = none) := by
  induction h with
  | last hline =>
    exact ⟨[], Text.split_of_not_mem (mt Text.newline_mem_utf8_iff.1 hline), .inl ⟨rfl, rfl⟩⟩
  | @noText bad rest hbad hnoText hrest =>
    have hdecode := Text.decode?_eq_none_iff.2 hnoText
    cases rest with
    | nil =>
      rw [List.append_nil]
      exact ⟨_, Text.split_of_not_mem hbad, .inr ⟨rfl, bad, [], rfl, hdecode⟩⟩
    | cons b rest =>
      obtain rfl := hrest b rfl
      exact ⟨_, split_newline hbad rest, .inr ⟨rfl, bad, _, rfl, hdecode⟩⟩
  | line hline _ ih =>
    obtain ⟨tail, hsplit, hend⟩ := ih
    refine ⟨tail, ?_, hend⟩
    rw [split_newline (mt Text.newline_mem_utf8_iff.1 hline), hsplit]
    rfl

/-! ## Requests -/

theorem requestOf_of_asks {line source url : List Char} (h : Asks line source url) :
    Session.requestOf line = some (String.ofList source, String.ofList url) := by
  cases h with
  | sourced hwords => rw [Session.requestOf, Text.words_eq_iff.2 hwords]
  | bare hwords => rw [Session.requestOf, Text.words_eq_iff.2 hwords, String.ofList_nil]

theorem requestOf_of_hasWords_nil {line : List Char} (h : HasWords line []) :
    Session.requestOf line = none := by
  rw [Session.requestOf, Text.words_eq_iff.2 h]

theorem hasWords_nil_or_asks (line : List Char) :
    HasWords line [] ∨ ∃ source url, Asks line source url := by
  cases hwords : Text.words line with
  | nil => exact .inl (Text.words_eq_iff.1 hwords)
  | cons first more =>
    have hwords := Text.words_eq_iff.1 hwords
    cases more with
    | nil => exact .inr ⟨[], first, .bare hwords⟩
    | cons url more => exact .inr ⟨first, url, .sourced hwords⟩

theorem Asks.isWord {line source url : List Char} (h : Asks line source url) : IsWord url := by
  cases h with
  | sourced hwords => exact hwords.isWord url (by simp)
  | bare hwords => exact hwords.isWord url (by simp)

/-! ## Replies -/

theorem toList_reply_of_passed {verdict : Verdict} (h : ∀ rule, verdict ≠ .blocked rule)
    (url : List Char) : (Session.reply verdict (String.ofList url)).toList = url := by
  cases verdict with
  | blocked rule => exact absurd rfl (h rule)
  | allowed => exact String.toList_ofList
  | excepted rule => exact String.toList_ofList

theorem isReply_iff {url reply : List Char} {verdict : Verdict} :
    IsReply url verdict reply ↔ (Session.reply verdict (String.ofList url)).toList = reply := by
  constructor
  · intro h
    cases h with
    | blocked => rfl
    | passed hpassed => exact toList_reply_of_passed hpassed url
  · rintro rfl
    by_cases hblocked : ∃ rule, verdict = .blocked rule
    · obtain ⟨rule, rfl⟩ := hblocked
      exact .blocked
    · have hpassed := not_exists.1 hblocked
      rw [toList_reply_of_passed hpassed]
      exact .passed hpassed

theorem IsReply.newline_not_mem {url reply : List Char} {verdict : Verdict}
    (h : IsReply url verdict reply) (hurl : '\n' ∉ url) : '\n' ∉ reply := by
  cases h with
  | blocked => decide
  | passed => exact hurl

theorem exists_replies (engine : Engine) (lines : List (List Char)) :
    ∃ replies, Replies engine lines replies := by
  induction lines with
  | nil => exact ⟨[], .done⟩
  | cons line lines ih =>
    obtain ⟨replies, hreplies⟩ := ih
    rcases hasWords_nil_or_asks line with hwords | ⟨source, url, hasks⟩
    · exact ⟨replies, .silent hwords hreplies⟩
    · exact ⟨_, .request hasks (isReply_iff.2 rfl) hreplies⟩

theorem Replies.newline_not_mem {engine : Engine} {lines replies : List (List Char)}
    (h : Replies engine lines replies) : ∀ reply ∈ replies, '\n' ∉ reply := by
  induction h with
  | done => simp
  | silent _ _ ih => exact ih
  | request hasks hreply _ ih =>
    exact List.forall_mem_cons.2 ⟨hreply.newline_not_mem hasks.isWord.newline_not_mem, ih⟩

/-! ## Runs -/

def written (replies : List (List Char)) : List UInt8 :=
  utf8 (replies.flatMap (· ++ ['\n']))

theorem written_cons (reply : List Char) (replies : List (List Char)) :
    written (reply :: replies) = utf8 (reply ++ ['\n']) ++ written replies := by
  rw [written, List.flatMap_cons, Text.utf8_append]
  rfl

section
variable (finish : Stats → Program) {e : Engine} {line : List Char}

theorem filterLines_of_silent (h : HasWords line []) (stats : Stats) (rest : List (List UInt8)) :
    Session.filterLines finish e stats (utf8 line :: rest) =
      Session.filterLines finish e stats rest := by
  rw [Session.filterLines, Text.decode?_eq_some_iff.2 rfl]
  simp only [requestOf_of_hasWords_nil h]

/-- One request: the reply that the rules give is printed, and the engine goes on with what it
remembers. -/
theorem run_filterLines_of_asks {source url reply : List Char} (h : Asks line source url)
    (hreply : IsReply url (e.evaluate (String.ofList source) (String.ofList url)) reply)
    (hremembers : e.Remembers) (stats : Stats) (rest : List (List UInt8)) (w : World) :
    ∃ stats',
      let behind := (Session.filterLines finish
        (e.answer (String.ofList source) (String.ofList url)).engine stats' rest).run w
      let all := (Session.filterLines finish e stats (utf8 line :: rest)).run w
      all.stdout = utf8 (reply ++ ['\n']) ++ behind.stdout ∧ all.code = behind.code := by
  have htext : (Session.reply (e.answer (String.ofList source) (String.ofList url)).verdict
      (String.ofList url) ++ "\n").toList = reply ++ ['\n'] := by
    rw [String.toList_append, Session.reply, hremembers.isBlocked_answer, ← Session.reply,
      isReply_iff.1 hreply]
    rfl
  rw [Session.filterLines, Text.decode?_eq_some_iff.2 rfl, ← htext]
  simp only [requestOf_of_asks h]
  exact ⟨_, rfl, rfl⟩

theorem run_filterLines_of_noText {bad : List UInt8} (h : Text.decode? bad = none) (stats : Stats)
    (rest : List (List UInt8)) (w : World) :
    ((Session.filterLines finish e stats (bad :: rest)).run w).stdout = [] ∧
      ((Session.filterLines finish e stats (bad :: rest)).run w).code = 1 := by
  rw [Session.filterLines, h]
  exact ⟨rfl, rfl⟩

/-- The replies to some lines are printed before anything comes of the pieces behind them. An engine
that remembers what the rules say replies like the one it came from. -/
theorem run_filterLines {engine : Engine} {lines replies : List (List Char)}
    (h : Replies engine lines replies) (hremembers : e.Remembers)
    (hevaluate : ∀ source request, e.evaluate source request = engine.evaluate source request)
    (stats : Stats) (tail : List (List UInt8)) (w : World) :
    ∃ e' stats',
      let behind := (Session.filterLines finish e' stats' tail).run w
      let all := (Session.filterLines finish e stats (lines.map utf8 ++ tail)).run w
      all.stdout = written replies ++ behind.stdout ∧ all.code = behind.code := by
  -- every request leaves another engine behind, so the induction is over all that remember
  induction h generalizing e stats with
  | done => exact ⟨e, stats, rfl, rfl⟩
  | silent hwords _ ih =>
    rw [List.map_cons, List.cons_append, filterLines_of_silent finish hwords]
    exact ih hremembers hevaluate stats
  | @request line source url reply lines replies hasks hreply _ ih =>
    rw [← hevaluate] at hreply
    obtain ⟨stats₁, hstdout, hcode⟩ := run_filterLines_of_asks finish hasks hreply
      hremembers stats (lines.map utf8 ++ tail) w
    have hkept := Engine.evaluate_call e (.verdict (String.ofList source) (String.ofList url))
    obtain ⟨e', stats', hstdout', hcode'⟩ := ih (hremembers.answer _ _)
      (fun source request => (hkept source request).trans (hevaluate source request)) stats₁
    refine ⟨e', stats', ?_, hcode.trans hcode'⟩
    rw [List.map_cons, List.cons_append, hstdout, hstdout', written_cons, List.append_assoc]

end

theorem Session.run_filter {session : Session} {w : World} {lines replies : List (List Char)}
    {complete : Bool} (hremembers : session.engine.Remembers) (hlines : HasLines w.input lines complete)
    (hreplies : Replies session.engine lines replies) (verbose : Bool) (format : TimeFormat) :
    ((session.filter verbose format).run w).stdout = written replies ∧
      ((session.filter verbose format).run w).code = if complete then 0 else 1 := by
  obtain ⟨tail, hsplit, hend⟩ := hlines.exists_tail
  unfold Session.filter
  rw [Program.run, hsplit]
  obtain ⟨e', stats', hstdout, hcode⟩ := run_filterLines _ hreplies hremembers (fun _ _ => rfl) {}
    tail w
  rw [hstdout, hcode]
  rcases hend with ⟨rfl, rfl⟩ | ⟨rfl, bad, rest, rfl, hbad⟩
  -- the statistics that are shown behind the last reply are not on the standard output
  · cases verbose <;> exact ⟨List.append_nil _, rfl⟩
  · obtain ⟨hnothing, hfailed⟩ := run_filterLines_of_noText _ hbad stats' rest w
    rw [hnothing, hfailed]
    exact ⟨List.append_nil _, rfl⟩

/-! ## The command -/

theorem Program.run_readAll (next : List (String × Except ReadError FilterList.Source) → Program)
    (paths : List String) (w : World) :
    (Program.readAll next paths).run w =
      (next (paths.map fun path => (path, w.directory.read path))).run w := by
  induction paths generalizing next with
  | nil => rfl
  | cons path paths ih =>
    rw [Program.readAll, Program.run, ih]
    rfl

theorem run_note (text : String) (next : Program) (w : World) :
    ((note text next).run w).stdout = (next.run w).stdout ∧
      ((note text next).run w).code = (next.run w).code := by
  unfold note
  split
  · exact ⟨rfl, rfl⟩
  · exact ⟨rfl, rfl⟩

theorem rules_ne_nil_of_read {words : List String} {a : Arguments}
    (h : Arguments.read words = .ok a) : a.rules ≠ [] := by
  unfold Arguments.read at h
  simp only [refuse, bind, Except.bind] at h
  repeat' split at h
  all_goals cases h
  next hrules =>
    intro hnil
    exact hrules (List.isEmpty_iff.2 hnil)

def ruleFiles (a : Arguments) (w : World) : List Session.RuleFile :=
  a.rules.map fun path => (path, w.directory.read path)

theorem run_program_filter {words : List String} {a : Arguments} {w : World} {notes : String}
    {session : Session} (hread : Arguments.read words = .ok a) (hcommand : a.command = .filter)
    (hcreate : Session.create a.config a.verbose (ruleFiles a w) = .ok (notes, session))
    (format : TimeFormat) :
    ((program format words).run w).stdout = ((session.filter a.verbose format).run w).stdout ∧
      ((program format words).run w).code = ((session.filter a.verbose format).run w).code := by
  rw [ruleFiles] at hcreate
  rw [program, hread]
  simp only [Arguments.program, Program.run, Program.run_readAll]
  rw [hcreate, hcommand]
  exact run_note notes _ w

/-- The filter command replies to each line of the input as if it were alone, up to a line that is no
text, at which it fails. -/
theorem filter_answers_each_alone {words : List String} {a : Arguments} {w : World}
    (hread : Arguments.read words = .ok a) (hcommand : a.command = .filter)
    (hcapacity : 0 < a.cacheCapacity) (hwhole : ∀ file ∈ ruleFiles a w, Session.IsWhole file)
    (format : TimeFormat) :
    ∃ notes session, Session.create a.config a.verbose (ruleFiles a w) = .ok (notes, session) ∧
      (∃ lines complete replies, HasLines w.input lines complete ∧
        Replies session.engine lines replies) ∧
      ∀ lines complete replies, HasLines w.input lines complete →
        Replies session.engine lines replies →
        (∀ reply ∈ replies, '\n' ∉ reply) ∧
        ((program format words).run w).stdout = written replies ∧
        ((program format words).run w).code = if complete then 0 else 1 := by
  have hne : ruleFiles a w ≠ [] := by
    unfold ruleFiles
    simp [rules_ne_nil_of_read hread]
  have hroom : 0 < a.config.cacheCapacity := hcapacity
  obtain ⟨notes, session, hcreate⟩ := Session.exists_create hwhole hne hroom a.verbose
  refine ⟨notes, session, hcreate, ?_, fun lines complete replies hlines hreplies => ?_⟩
  · obtain ⟨lines, complete, hlines⟩ := exists_hasLines w.input
    obtain ⟨replies, hreplies⟩ := exists_replies session.engine lines
    exact ⟨lines, complete, replies, hlines, hreplies⟩
  · obtain ⟨index, hengine⟩ := Session.exists_engine_of_create hcreate
    obtain ⟨hstdout, hcode⟩ := run_program_filter hread hcommand hcreate format
    rw [hstdout, hcode]
    exact ⟨hreplies.newline_not_mem, Session.run_filter (Engine.remembers_of_create hengine) hlines
      hreplies a.verbose format⟩

/-- A request, a line without one, an address without a source, and then bytes that are no text. -/
theorem filter_answers_each_alone_cut :
    let words := ["-r", "a.txt", "--cache", "1", "filter"]
    let w : World := {
      directory := { files := [(["a.txt"], utf8 "/ad*".toList)] }
      input := utf8 "site.test http://x.test/ad/1".toList ++
        10 :: (utf8 [' '] ++ 10 :: (utf8 "http://x.test/ad".toList ++ 10 :: [0xFF])) }
    ((program .standard words).run w).stdout =
        written ["about:blank".toList, "about:blank".toList] ∧
      ((program .standard words).run w).code = 1 := by
  intro words w
  have hread : Arguments.read words = .ok {
      rules := ["a.txt"], cacheCapacity := 1, hierarchical := false, noMerge := false
      verbose := false, json := false, command := .filter } := by
    decide +kernel
  have hwhole : ∀ file ∈ [("a.txt", w.directory.read "a.txt")], Session.IsWhole file := by
    intro file hfile source hsource
    obtain rfl := List.mem_singleton.1 hfile
    cases hsource
    rfl
  obtain ⟨notes, session, hcreate, -, hrun⟩ :=
    filter_answers_each_alone hread rfl (by decide) hwhole .standard
  have hlines : HasLines w.input
      ["site.test http://x.test/ad/1".toList, [' '], "http://x.test/ad".toList] false := by
    have hbad : HasLines ([0xFF] ++ []) [] false :=
      .noText (by decide) (Text.decode?_eq_none_iff.1 (by decide)) (by simp)
    refine .line ?_ (.line ?_ (.line ?_ hbad)) <;> decide
  have hblocked : ∀ source url : String,
      ((Session.withoutNotes (.ok (notes, session))).toOption.map fun s =>
        (s.engine.evaluate source url).isBlocked) = some true →
      IsReply url.toList (session.engine.evaluate (String.ofList source.toList)
        (String.ofList url.toList)) "about:blank".toList := by
    intro source url h
    have hverdict : (session.engine.evaluate source url).isBlocked = true := Option.some.inj h
    rw [isReply_iff, Session.reply, String.ofList_toList, String.ofList_toList, hverdict]
    rfl
  rw [← hcreate] at hblocked
  have hlast : Asks "http://x.test/ad".toList "".toList "http://x.test/ad".toList :=
    .bare (Text.words_eq_iff.1 (by decide +kernel))
  have hfirst : Asks "site.test http://x.test/ad/1".toList "site.test".toList
      "http://x.test/ad/1".toList := by
    have hwords : HasWords "site.test http://x.test/ad/1".toList
        ["site.test".toList, "http://x.test/ad/1".toList] :=
      Text.words_eq_iff.1 (by decide +kernel)
    exact .sourced hwords
  have hblank : HasWords [' '] [] := Text.words_eq_iff.1 rfl
  exact (hrun _ _ _ hlines (.request hfirst (hblocked _ _ (by decide +kernel)) (.silent hblank
    (.request hlast (hblocked _ _ (by decide +kernel)) .done)))).2

end AdFilter.CommandLine
