import BananaWrt.AtPipeline
import Mathlib.Tactic.SplitIfs

/-!
# What becomes of a line and of a command

`effects_cases` says what `processLine` does while a command is pending. So its response holds what
has arrived for it since it was written (`Collects`), and keeps it as long as no other call is made
(`right_of_exec`).
-/

namespace BananaWrt

namespace AtChannel

/-- `processLine` does what its effects say. -/
theorem processLine_eq (ch : Channel) (atcProxy : Bool) (line : Line) :
    ch.processLine atcProxy line = ((ch.effects atcProxy line).foldl (Channel.apply line) ch,
      ch.action (ch.effects atcProxy line)) := by
  obtain ⟨type, responsePrefix, smsPDU, rawData, _ | r⟩ := ch
  · rfl
  · unfold Channel.processLine Channel.effects
    dsimp only
    by_cases hraw : rawData.isSome ∧ line = "CONNECT".toList
    · rw [if_pos hraw, if_pos hraw]
      rfl
    · rw [if_neg hraw, if_neg hraw]
      by_cases hs : isFinalResponseSuccess line
      · rw [if_pos hs, if_pos hs]
        cases atcProxy <;> rfl
      · rw [if_neg hs, if_neg hs]
        by_cases he : isFinalResponseError line
        · rw [if_pos he, if_pos he]
          cases atcProxy <;> rfl
        · rw [if_neg he, if_neg he]
          by_cases hsms : smsPDU.isSome ∧ line = "> ".toList
          · rw [if_pos hsms, if_pos hsms]
            rfl
          · rw [if_neg hsms, if_neg hsms]
            cases type
            all_goals
              dsimp only
              try split_ifs
            all_goals rfl

end AtChannel

namespace AtPipeline

open AtChannel

/-- While a command is pending, a line is answered, or is a final response, or goes by the type of
the command. -/
theorem effects_cases {ch : Channel} {r : Response} (h : ch.response = some r) (atcProxy : Bool)
    (l : Line) :
    (ch.rawData.isSome ∧ l = "CONNECT".toList) ∧ ch.effects atcProxy l = [.rawData]
      ∨ (ch.smsPDU.isSome ∧ l = "> ".toList) ∧ ch.effects atcProxy l = [.smsPDU]
      ∨ (¬ (ch.rawData.isSome ∧ l = "CONNECT".toList) ∧ ¬ (ch.smsPDU.isSome ∧ l = "> ".toList))
        ∧ ((isFinalResponse l ∧ ∃ success, ch.effects atcProxy l
            = (if atcProxy then [.unsolicited] else []) ++ [.finalResponse success])
          ∨ ¬ isFinalResponse l ∧ ch.effects atcProxy l
            = if accepts ch.type ch.responsePrefix l ∧ (ch.type = .multiLine ∨ r.intermediates = [])
              then [.intermediate] else [.unsolicited]) := by
  obtain ⟨type, responsePrefix, smsPDU, rawData, response⟩ := ch
  obtain rfl : response = some r := h
  unfold Channel.effects
  dsimp only
  by_cases hraw : rawData.isSome ∧ l = "CONNECT".toList
  · exact .inl ⟨hraw, if_pos hraw⟩
  rw [if_neg hraw]
  by_cases hfinal : isFinalResponse l
  · -- a prompt is no final response
    have hprompt : ¬ (smsPDU.isSome ∧ l = "> ".toList) := by
      rintro ⟨-, rfl⟩
      exact absurd hfinal (by decide)
    refine .inr (.inr ⟨⟨hraw, hprompt⟩, .inl ⟨hfinal, ?_⟩⟩)
    by_cases hs : isFinalResponseSuccess l
    · exact ⟨true, if_pos hs⟩
    · have he : isFinalResponseError l := by simpa [isFinalResponse, hs] using hfinal
      exact ⟨false, by rw [if_neg hs, if_pos he]⟩
  · have hs : ¬ isFinalResponseSuccess l := fun hs => hfinal (by simp [isFinalResponse, hs])
    have he : ¬ isFinalResponseError l := fun he => hfinal (by simp [isFinalResponse, he])
    rw [if_neg hs, if_neg he]
    by_cases hsms : smsPDU.isSome ∧ l = "> ".toList
    · exact .inr (.inl ⟨hsms, if_pos hsms⟩)
    · rw [if_neg hsms]
      refine .inr (.inr ⟨⟨hraw, hsms⟩, .inr ⟨hfinal, ?_⟩⟩)
      cases type <;> simp [accepts, and_comm]

theorem once_effects (ch : Channel) (atcProxy : Bool) (l : Line) :
    (Entry.line l (ch.effects atcProxy l)).Once atcProxy := by
  unfold Entry.Once
  rcases hr : ch.response with _ | r
  · unfold Channel.effects
    rw [hr]
    exact .inl rfl
  · rcases effects_cases hr atcProxy l with
      ⟨-, h⟩ | ⟨-, h⟩ | ⟨-, ⟨hfinal, success, h⟩ | ⟨-, h⟩⟩
    all_goals rw [h]
    · exact .inl rfl
    · exact .inl rfl
    · cases atcProxy
      · exact .inl rfl
      · exact .inr ⟨rfl, hfinal, success, rfl⟩
    · split_ifs
      · exact .inl rfl
      · exact .inl rfl

/-- One more line is collected if the command asks for it and takes more than it has. -/
theorem collect_concat (type : CommandType) (responsePrefix : Line) (ls : List Line) (l : Line) :
    collect type responsePrefix (ls ++ [l]) = collect type responsePrefix ls
      ++ if accepts type responsePrefix l
          ∧ (type = .multiLine ∨ collect type responsePrefix ls = []) then [l] else [] := by
  unfold collect
  dsimp only
  rw [List.filter_append]
  by_cases ha : accepts type responsePrefix l
  · have hl : [l].filter (accepts type responsePrefix) = [l] := by simp [ha]
    rw [hl]
    by_cases hm : type = .multiLine
    · rw [if_pos hm, if_pos hm, if_pos ⟨ha, .inl hm⟩]
    · rcases ls.filter (accepts type responsePrefix) with _ | ⟨a, ls⟩
      · simp [hm, ha]
      · simp [hm]
  · have hl : [l].filter (accepts type responsePrefix) = [] := by simp [ha]
    rw [hl]
    simp [ha]

/-- The response holds what has come for the command since it was written: it takes its lines from
those that are read, whose reading the channel goes by. -/
structure Holds (ch : Channel) (line1 : Option Line) (c : Call) (r : Response) (ls : List Line) :
    Prop where
  response : ch.response = some r
  type : ch.type = c.type
  responsePrefix : ch.responsePrefix = c.responsePrefix
  reading : c.reading = ⟨line1.isSome, ch.rawData.isSome, ch.smsPDU.isSome, ls⟩
  intermediates : r.intermediates.reverse
    = collect c.type c.responsePrefix (ls.filter (! isFinalResponse ·))
  final : r.finalResponse = (ls.filter isFinalResponse).getLast?

def Collects (ch : Channel) (line1 : Option Line) (c : Call) : Prop := ∃ r ls, Holds ch line1 c r ls

theorem reading_arrive (c : Call) (a : Arrival) : (c.arrive a).reading = c.reading.take a := by
  simp [Call.reading, Call.arrive]

variable {ch : Channel} {line1 : Option Line} {c : Call} {l : Line}

theorem Collects.raw (h : Collects ch line1 c) (data : Line) :
    Collects { ch with rawData := some data } line1 (c.arrive .raw) := by
  obtain ⟨r, ls, hr⟩ := h
  refine ⟨r, ls, hr.response, hr.type, hr.responsePrefix, ?_, hr.intermediates, hr.final⟩
  rw [reading_arrive, hr.reading]
  rfl

/-- The second line of a short message is passed over. -/
theorem Collects.second {l1 : Line} (h : Collects ch (some l1) c) (l : Line) :
    Collects ch none (c.arrive (.line l)) := by
  obtain ⟨r, ls, hr⟩ := h
  refine ⟨r, ls, hr.response, hr.type, hr.responsePrefix, ?_, hr.intermediates, hr.final⟩
  rw [reading_arrive, hr.reading]
  rfl

theorem Collects.first (h : Collects ch none c) (hl : isSMSUnsolicited l) :
    Collects ch (some l) (c.arrive (.line l)) := by
  obtain ⟨r, ls, hr⟩ := h
  refine ⟨r, ls, hr.response, hr.type, hr.responsePrefix, ?_, hr.intermediates, hr.final⟩
  rw [reading_arrive, hr.reading, Reading.take, if_neg (by simp), if_pos hl]
  rfl

/-- A line that is not of a short message is read as the channel is about to take it. -/
theorem Collects.processLine (h : Collects ch none c) (hl : ¬ isSMSUnsolicited l)
    (atcProxy : Bool) : Collects (ch.processLine atcProxy l).1 none (c.arrive (.line l)) := by
  obtain ⟨r, ls, hr⟩ := h
  have hresponse := hr.response
  have htake : (c.arrive (.line l)).reading
      = if ch.rawData.isSome ∧ l = "CONNECT".toList then ⟨false, false, ch.smsPDU.isSome, ls⟩
        else if ch.smsPDU.isSome ∧ l = "> ".toList then ⟨false, ch.rawData.isSome, false, ls⟩
        else ⟨false, ch.rawData.isSome, ch.smsPDU.isSome, ls ++ [l]⟩ := by
    rw [reading_arrive, hr.reading, Reading.take, if_neg (by simp), if_neg hl]
    rfl
  rw [processLine_eq]
  rcases effects_cases hresponse atcProxy l with
    ⟨hraw, h⟩ | ⟨hsms, h⟩ | ⟨⟨hraw, hsms⟩, ⟨hfinal, success, h⟩ | ⟨hfinal, h⟩⟩
  all_goals rw [h]
  · rw [if_pos hraw] at htake
    exact ⟨r, ls, hresponse, hr.type, hr.responsePrefix, htake, hr.intermediates, hr.final⟩
  · have hraw : ¬ (ch.rawData.isSome ∧ l = "CONNECT".toList) := by
      rintro ⟨-, hconnect⟩
      exact absurd (hsms.2.symm.trans hconnect) (by decide)
    rw [if_neg hraw, if_pos hsms] at htake
    exact ⟨r, ls, hresponse, hr.type, hr.responsePrefix, htake, hr.intermediates, hr.final⟩
  · rw [if_neg hraw, if_neg hsms] at htake
    -- a proxy hands the line over first, which leaves the channel as it is
    have hfold : ((if atcProxy then [Effect.unsolicited] else [])
        ++ [Effect.finalResponse success]).foldl (Channel.apply l) ch
          = ch.handleFinalResponse r success l := by
      cases atcProxy <;> simp [Channel.apply, hresponse]
    rw [hfold]
    refine ⟨_, _, rfl, hr.type, hr.responsePrefix, htake, hr.intermediates.trans ?_, ?_⟩
    · simp [hfinal, Call.arrive]
    · simp [hfinal]
  · rw [if_neg hraw, if_neg hsms] at htake
    have hlast : (ls ++ [l]).filter isFinalResponse = ls.filter isFinalResponse := by simp [hfinal]
    have hcollect : collect c.type c.responsePrefix ((ls ++ [l]).filter (! isFinalResponse ·))
        = r.intermediates.reverse ++ if accepts ch.type ch.responsePrefix l
            ∧ (ch.type = .multiLine ∨ r.intermediates = []) then [l] else [] := by
      have hlines : (ls ++ [l]).filter (! isFinalResponse ·)
          = ls.filter (! isFinalResponse ·) ++ [l] := by simp [hfinal]
      rw [hlines, collect_concat, ← hr.intermediates, hr.type, hr.responsePrefix]
      simp only [List.reverse_eq_nil_iff]
    split_ifs at hcollect ⊢ with hacc
    · have hfold : [Effect.intermediate].foldl (Channel.apply l) ch = ch.addIntermediate r l := by
        simp [Channel.apply, hresponse]
      rw [hfold]
      refine ⟨_, _, rfl, hr.type, hr.responsePrefix, htake, ?_, ?_⟩
      · exact List.reverse_cons.trans hcollect.symm
      · rw [hlast]
        exact hr.final
    · rw [List.append_nil] at hcollect
      refine ⟨r, _, hresponse, hr.type, hr.responsePrefix, htake, hcollect.symm, ?_⟩
      rw [hlast]
      exact hr.final

theorem gets_of_holds {r : Response} {ls : List Line} (h : Holds ch line1 c r ls)
    (hfinal : r.finalResponse ≠ none) : Completion.Gets ⟨c, r.reverseIntermediates⟩ := by
  have hfound : ∃ l, ls.find? isFinalResponse = some l := by
    rw [← Option.ne_none_iff_exists', ne_eq, List.find?_eq_none]
    intro hnone
    rw [h.final, List.filter_eq_nil_iff.2 hnone] at hfinal
    exact hfinal rfl
  obtain ⟨l, hl⟩ := hfound
  obtain ⟨hl, before, after, hlines, hbefore⟩ := List.find?_eq_some_iff_append.1 hl
  have hbefore : ∀ l' ∈ before, ¬ isFinalResponse l' := fun l' hl' => by simpa using hbefore l' hl'
  refine ⟨before, l, after, by rw [h.reading, hlines], hbefore, hl, ?_⟩
  rintro rfl
  have hi := h.intermediates
  have hf := h.final
  have hnone : before.filter isFinalResponse = [] := List.filter_eq_nil_iff.2 hbefore
  have hall : before.filter (! isFinalResponse ·) = before :=
    List.filter_eq_self.2 fun l' hl' => by simpa using hbefore l' hl'
  rw [hlines, List.filter_append] at hi hf
  rw [hall, List.filter_cons_of_neg (by simp [hl]), List.filter_nil, List.append_nil] at hi
  rw [hnone, List.filter_cons_of_pos hl] at hf
  exact ⟨hf, hi⟩

/-- A call that is alone is the only one, and the pending command is its. -/
structure Inv (s : State) : Prop where
  right : Right s
  alone : ∀ c ∈ s.calls, c.alone = true → s.calls = [c] ∧ Collects s.channel s.line1 c

theorem inv_init (atcProxy : Bool) : Inv (.init atcProxy) :=
  ⟨⟨rfl, by simp [State.init], by simp [State.init]⟩, by simp [State.init]⟩

theorem alone_arrive {s : State} {a : Arrival} {ch : Channel} {line1 : Option Line}
    (h : ∀ c ∈ s.calls, c.alone = true → s.calls = [c] ∧ Collects ch line1 (c.arrive a)) :
    ∀ c ∈ (s.arrive a).calls, c.alone = true → (s.arrive a).calls = [c] ∧ Collects ch line1 c := by
  intro c' hc' halone
  obtain ⟨c, hc, rfl⟩ := List.mem_map.1 hc'
  obtain ⟨hcalls, hcollects⟩ := h c hc halone
  exact ⟨congrArg (List.map _) hcalls, hcollects⟩

/-- What has been delivered stays so when one more line is. -/
theorem right_entry {s s' : State} {e : Entry} (h : Right s) (hproxy : s'.atcProxy = s.atcProxy)
    (hcompletions : s'.completions = s.completions) (hentries : s'.entries = s.entries ++ [e])
    (honce : e.Once s.atcProxy)
    (hread : s'.lines = s.entries.flatMap Entry.lines ++ e.lines ++ s'.line1.toList) :
    Right s' := by
  refine ⟨?_, ?_, ?_⟩
  · rw [hread, hentries, List.flatMap_append, List.flatMap_singleton]
  · rw [hentries, hproxy]
    intro e' he'
    rcases List.mem_append.1 he' with he' | he'
    · exact h.once e' he'
    · obtain rfl := List.mem_singleton.1 he'
      exact honce
  · rw [hcompletions]
    exact h.gets

theorem inv_line {s : State} (h : Inv s) (l : Line) : Inv (s.line l) := by
  have hread := h.right.read
  have halone := h.alone
  unfold State.line
  rcases h1 : s.line1 with _ | l1
  · rw [h1, Option.toList_none, List.append_nil] at hread
    rw [h1] at halone
    simp only [State.arrive]
    split_ifs with hsms
    · refine ⟨⟨?_, h.right.once, h.right.gets⟩, alone_arrive fun c hc hal => ?_⟩
      · show s.lines ++ [l] = s.entries.flatMap Entry.lines ++ [l]
        rw [hread]
      · obtain ⟨hcalls, hcollects⟩ := halone c hc hal
        exact ⟨hcalls, hcollects.first hsms⟩
    · refine ⟨right_entry h.right rfl rfl rfl (once_effects _ _ l) ?_,
        alone_arrive fun c hc hal => ?_⟩
      · show s.lines ++ [l] = s.entries.flatMap Entry.lines ++ [l] ++ []
        rw [hread]
        exact (List.append_nil _).symm
      · obtain ⟨hcalls, hcollects⟩ := halone c hc hal
        exact ⟨hcalls, hcollects.processLine hsms _⟩
  · rw [h1] at hread halone
    simp only [State.arrive]
    refine ⟨right_entry h.right rfl rfl rfl trivial ?_, alone_arrive fun c hc hal => ?_⟩
    · show s.lines ++ [l] = s.entries.flatMap Entry.lines ++ [l1, l] ++ []
      rw [hread]
      simp
    · obtain ⟨hcalls, hcollects⟩ := halone c hc hal
      exact ⟨hcalls, hcollects.second l⟩

/-- A call that is made while others wait leaves none of them alone. -/
theorem inv_send {s : State} (h : Inv s) (type : CommandType) (responsePrefix : Line)
    (smsPDU : Option Line) (wrote : Bool) : Inv (s.send type responsePrefix smsPDU wrote) := by
  have hnone : ∀ c ∈ s.calls.map fun c => { c with alone := false }, ¬ c.alone = true := by
    intro c hc
    obtain ⟨c', -, rfl⟩ := List.mem_map.1 hc
    simp
  unfold State.send
  dsimp only
  split_ifs with hsent
  · refine ⟨⟨h.right.read, h.right.once, h.right.gets⟩, fun c hc hal => ?_⟩
    rcases List.mem_append.1 hc with hc | hc
    · exact absurd hal (hnone c hc)
    · obtain rfl := List.mem_singleton.1 hc
      have hcalls : s.calls = [] := List.isEmpty_iff.1 hal
      refine ⟨by simp [hcalls], .new, [], ?_⟩
      unfold Channel.sendCommand at hsent ⊢
      split_ifs at hsent ⊢ with hfree
      · simp [Channel.clearPendingCommand] at hsent
      · exact ⟨rfl, rfl, rfl, rfl, by cases type <;> rfl, rfl⟩
  · exact ⟨⟨h.right.read, h.right.once, h.right.gets⟩, fun c hc hal => absurd hal (hnone c hc)⟩

/-- A call that was alone leaves no other behind. -/
theorem eraseP_of_alone {s : State} (h : Inv s) {c c' : Call} (hc : c ∈ s.calls)
    (hc' : c' ∈ s.calls.eraseP (·.id = c.id)) : ¬ c'.alone = true := by
  intro hal
  obtain ⟨hcalls, -⟩ := h.alone c' (List.mem_of_mem_eraseP hc') hal
  rw [hcalls] at hc hc'
  obtain rfl := List.mem_singleton.1 hc
  simp at hc'

theorem inv_wake {s : State} (h : Inv s) {c : Call} (hc : c ∈ s.calls) : Inv (s.wake c) := by
  unfold State.wake
  rcases hr : s.channel.response with _ | r
  · exact ⟨⟨h.right.read, h.right.once, h.right.gets⟩, h.alone⟩
  · dsimp only
    split_ifs with hwait hclosed
    · exact h
    · exact ⟨⟨h.right.read, h.right.once, h.right.gets⟩,
        fun c' hc' hal => absurd hal (eraseP_of_alone h hc hc')⟩
    · refine ⟨⟨h.right.read, h.right.once, fun c' hc' hal => ?_⟩,
        fun c' hc' hal => absurd hal (eraseP_of_alone h hc hc')⟩
      rcases List.mem_append.1 hc' with hc' | hc'
      · exact h.right.gets c' hc' hal
      · obtain rfl := List.mem_singleton.1 hc'
        obtain ⟨-, r', ls, hr'⟩ := h.alone c hc hal
        obtain rfl := Option.some.inj (hr.symm.trans hr'.response)
        exact gets_of_holds hr' fun hnone => hwait ⟨hnone, hclosed⟩

theorem inv_timeout {s : State} (h : Inv s) {c : Call} (hc : c ∈ s.calls) : Inv (s.timeout c) :=
  ⟨⟨h.right.read, h.right.once, h.right.gets⟩,
    fun _ hc' hal => absurd hal (eraseP_of_alone h hc hc')⟩

theorem inv_step (s : State) (i : Input) (s' : State) (h : Inv s) (hs : step s i = some s') :
    Inv s' := by
  unfold step at hs
  by_cases hfault : s.fault = true
  · rw [if_pos hfault] at hs
    cases hs
  rw [if_neg hfault] at hs
  cases i with
  | line l =>
    simp only [Option.ite_none_left_eq_some, Option.some.injEq] at hs
    obtain ⟨-, rfl⟩ := hs
    exact inv_line h l
  | eof =>
    obtain rfl := Option.some.inj hs
    exact ⟨⟨h.right.read, h.right.once, h.right.gets⟩, h.alone⟩
  | close =>
    obtain rfl := Option.some.inj hs
    exact ⟨⟨h.right.read, h.right.once, h.right.gets⟩, h.alone⟩
  | raw data =>
    obtain rfl := Option.some.inj hs
    refine ⟨⟨h.right.read, h.right.once, h.right.gets⟩, alone_arrive fun c hc hal => ?_⟩
    obtain ⟨hcalls, hcollects⟩ := h.alone c hc hal
    exact ⟨hcalls, hcollects.raw data⟩
  | send type responsePrefix smsPDU wrote =>
    obtain rfl := Option.some.inj hs
    exact inv_send h type responsePrefix smsPDU wrote
  | wake id =>
    obtain ⟨c, hc, rfl⟩ := Option.map_eq_some_iff.1 hs
    exact inv_wake h (List.mem_of_find?_eq_some hc)
  | timeout id =>
    obtain ⟨c, hc, rfl⟩ := Option.map_eq_some_iff.1 hs
    exact inv_timeout h (List.mem_of_find?_eq_some hc)

/-- The signal quality is asked for; a short message comes before the answer. -/
def signalQuality : List Input :=
  [.send .singleLine "+CSQ:".toList none true, .line "+CMT: ,24".toList, .line "0791448720".toList,
    .line "+CSQ: 20,99".toList, .line "OK".toList, .wake 0]

/-- A proxy's command is answered. -/
def proxied : List Input := [.send .noResult [] none true, .line "OK".toList]

/-- A second line for a command that takes one. -/
def secondLine : List Input :=
  [.send .singleLine "+CSQ:".toList none true, .line "+CSQ: 20,99".toList,
    .line "+CSQ: 21,99".toList, .line "OK".toList, .wake 0]

/-- A line comes before the caller has seen its final response. -/
def lateLine : List Input :=
  [.send .multiLine "+CGACT:".toList none true, .line "OK".toList, .line "+CGACT: 1,1".toList,
    .wake 0]

/-- The notice of a message, which has no second line, comes before the answer. -/
def noticed : List Input :=
  [.send .singleLine "+CSQ:".toList none true, .line "+CMTI: \"SM\",1".toList,
    .line "+CSQ: 20,99".toList, .line "OK".toList, .wake 0]

/-- A call is made while another one waits. -/
def secondCall : List Input := secondLine.take 2 ++ [.send .noResult [] none true]

end AtPipeline

end BananaWrt
