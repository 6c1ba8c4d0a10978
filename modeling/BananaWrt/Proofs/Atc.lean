import BananaWrt.Atc
import BananaWrt.Proofs.AtTok

/-!
# What registration and data call are read from

Where a registration line has a shape with its own format, `state` is what the second conversion of
that format stores, which is `<stat>` in all shapes but two. The variables that the lines of
`+QNETDEVCTL` are scanned into are those of the last line when the loop ends.
-/

namespace BananaWrt

namespace Atc

open AtChannel (Line)
open AtTok

section Send

variable {α : Type} {c : Command} {fail : α} {k : List Line → Calls Command Reply α}

theorem feed_send_ok {rs : ℕ → Reply} {lines : List Line} (h : (rs 0).ok.map (·.intermediates)
    = some lines) : (send c fail k).feed rs = (k lines).feed fun n => rs (n + 1) := by
  obtain ⟨p, hp, rfl⟩ := Option.map_eq_some_iff.1 h
  unfold send
  rw [Calls.feed, hp]

end Send

section Registration

variable {s : Shape} {registration : Registration}

/-- A name with a colon after it. -/
theorem responsePrefix_eq (registration : Registration) :
    ∃ name : Line, registration.command.responsePrefix = name ++ [':'] ∧ ':' ∉ name ∧ ',' ∉ name
      ∧ name.length ≤ 7 := by
  cases registration with
  | cgreg => exact ⟨"+CGREG".toList, rfl, by decide, by decide, by decide⟩
  | cereg => exact ⟨"+CEREG".toList, rfl, by decide, by decide, by decide⟩
  | c5greg => exact ⟨"+C5GREG".toList, rfl, by decide, by decide, by decide⟩

theorem follows_further (s : Shape) : Follows s.further := by
  cases s with
  | nStatLacCidAct n stat lac cid act further =>
    rcases further with _ | ⟨f, fs⟩
    · exact .inl rfl
    · exact .inr rfl
  | _ => exact .inl rfl

theorem numbers_ne_nil (s : Shape) : s.numbers ≠ [] := by
  cases s <;> exact List.cons_ne_nil _ _

/-- The commas of a line are those between the numbers and those behind them. -/
theorem atTokCount_line : atTokCount (s.line registration) = s.commas := by
  obtain ⟨name, hresp, -, hcomma, -⟩ := responsePrefix_eq registration
  unfold atTokCount Shape.line Shape.commas
  rw [hresp, List.count_append, List.count_append, List.count_append,
    List.count_eq_zero.2 hcomma, comma_count_numbers]
  simp

/-- A format of the shape's length finds all fields that are there, and the second is taken for
`<stat>`. -/
theorem scanState_line {fmt : Line} {n : ℕ} (hfmt : conversions fmt = s.numbers.map Number.conv)
    (hn : n = s.numbers.length) :
    scanState (s.line registration) fmt n = (s.seen registration).map (·.getD 1 0) := by
  obtain ⟨name, hresp, hcolon, -, hshort⟩ := responsePrefix_eq registration
  have hline : s.line registration = name ++ ':' :: (numbers s.numbers ++ s.further) := by
    unfold Shape.line
    rw [hresp, List.append_assoc]
    rfl
  have hseen : s.seen registration = AtTok.seen s.numbers (1022 - name.length) := by
    unfold Shape.seen
    rw [hresp, List.length_append, List.length_singleton,
      show 1023 - (name.length + 1) = 1022 - name.length by omega]
  have h := atTokScanf_numbers hcolon (by omega) (numbers_ne_nil s) hfmt (follows_further s)
  unfold scanState
  rw [hline, hseen]
  rcases hs : AtTok.seen s.numbers (1022 - name.length) with _ | vs
  · rw [hs] at h
    exact if_neg (by dsimp only at h; omega)
  · rw [hs] at h
    dsimp only at h ⊢
    rw [h, if_pos hn.symm]
    unfold intAt
    dsimp only
    rw [List.getElem?_map, Option.map_some, List.getD_eq_getElem?_getD]
    rcases vs[1]? with _ | v
    · rfl
    · rfl

theorem skipBasePrefix_ten (l : Line) : skipBasePrefix 10 l = l := by
  unfold skipBasePrefix
  split
  · exact if_neg fun h => absurd h.1 (by decide)
  · rfl

/-- The name of the response is not a number. -/
theorem parseNumber_name {c : Char} (l : Line) (hc : isDigit 10 c = false) :
    parseNumber 10 ('+' :: c :: l) = none := by
  unfold parseNumber
  rw [dropWhile_of_head (by rintro _ ⟨⟩; rfl)]
  change (if (skipBasePrefix 10 (c :: l)).takeWhile (isDigit 10) = [] then none else _) = none
  rw [skipBasePrefix_ten, List.takeWhile_cons_of_neg (by rw [hc]; exact Bool.false_ne_true),
    if_pos rfl]

/-- Without a comma, the number is looked for from the beginning of the line. -/
theorem atTokNextint_line (s : Shape) (registration : Registration) :
    (atTokNextint (s.line registration)).2 = none := by
  have hname : ∃ c l, (nextTok (s.line registration)).1 = '+' :: c :: l ∧ isDigit 10 c = false := by
    cases registration with
    | cgreg => exact ⟨'C', _, rfl, rfl⟩
    | cereg => exact ⟨'C', _, rfl, rfl⟩
    | c5greg => exact ⟨'C', _, rfl, rfl⟩
  obtain ⟨c, l, htok, hc⟩ := hname
  simp [atTokNextint, atTokNextintBase, htok, strtol, parseNumber_name l hc]

theorem parseRegistration_line :
    parseRegistration (s.line registration)
      = if s.commas = 0 ∨ 7 < s.commas then none
        else (s.seen registration).map (·.getD 1 0) := by
  unfold parseRegistration
  rw [atTokCount_line]
  cases s with
  | onlyStat stat =>
    change (atTokNextint _).2.map _ = none
    rw [atTokNextint_line]
    rfl
  | nStat n stat => exact scanState_line rfl rfl
  | statLacCid stat lac cid => exact scanState_line rfl rfl
  | nStatLacCid n stat lac cid => exact scanState_line rfl rfl
  | nStatLacCidAct n stat lac cid act further =>
    have hscan : scanState (Shape.line (.nStatLacCidAct n stat lac cid act further) registration)
        "%d%d%x%x%d".toList 5
          = (Shape.seen (.nStatLacCidAct n stat lac cid act further) registration).map
            (·.getD 1 0) := scanState_line rfl rfl
    have hcommas : Shape.commas (.nStatLacCidAct n stat lac cid act further)
        = (further.flatMap (',' :: ·)).count ',' + 4 := Nat.add_comm 4 _
    rw [hcommas]
    rcases (further.flatMap (',' :: ·)).count ',' with _ | _ | _ | _ | k
    · exact hscan
    · exact hscan
    · exact hscan
    · exact hscan
    · rw [if_pos (.inr (by omega))]
      rfl

theorem parseRegistration_iff (s : Shape) (registration : Registration) :
    ((∃ state ∈ parseRegistration (s.line registration), Shape.Registered state)
        ↔ Shape.Registered s.status.numeral.value)
      ↔ s.Sound registration := by
  rw [parseRegistration_line]
  unfold Shape.Sound
  split_ifs
  · simp
  · rcases s.seen registration with _ | vs
    · simp
    · simp

end Registration

/-- A number of one digit. -/
def digitOf (base : ℕ) (c : Char) (h : isDigit base c) : Num base where
  before := []
  quoted := false
  numeral := ⟨none, [], [c], .inl rfl, List.cons_ne_nil _ _, by simpa using h⟩
  after := []
  before_blank := blank_nil
  after_blank := blank_nil

/-- Whatever `<AcT>` leads to the command, on a line of one of the shapes the flag is set exactly if
`<stat>` says that the modem is registered, if and only if the line meets the condition. -/
theorem requestRegistrationState_iff (rs : ℕ → Reply) (cops more : List Line)
    (registration : Registration) (s : Shape)
    (hcops : (rs 0).ok.map (·.intermediates) = some cops)
    (hact : (parseCops cops).bind registrationOf = some registration)
    (hline : (rs 1).ok.map (·.intermediates) = some (s.line registration :: more)) :
    ((requestRegistrationState.feed rs).2 = 1 ↔ Shape.Registered s.status.numeral.value)
      ↔ s.Sound registration := by
  have hfeed : requestRegistrationState.feed rs
      = (parseRegistration (s.line registration)).elim (0, 0)
        fun state => (0, if state = 1 ∨ state = 5 then 1 else 0) := by
    unfold requestRegistrationState
    rw [feed_send_ok hcops, hact]
    dsimp only
    rw [feed_send_ok (show ((fun n => rs (n + 1)) 0).ok.map (·.intermediates) = some _ from hline)]
    rw [List.head?_cons, Option.bind_some]
    rcases parseRegistration (s.line registration) with _ | state
    · rfl
    · rfl
  have hflag : (requestRegistrationState.feed rs).2 = 1
      ↔ ∃ state ∈ parseRegistration (s.line registration), Shape.Registered state := by
    rw [hfeed]
    rcases parseRegistration (s.line registration) with _ | state
    · simp
    · by_cases hreg : state = 1 ∨ state = 5
      · simp [hreg, Shape.Registered]
      · simp [hreg, Shape.Registered]
  rw [hflag]
  exact parseRegistration_iff s registration

/-- The modem is on LTE. -/
def onLte (line : Line) : ℕ → Reply
  | 0 => answer ["+COPS: 0,2,\"46000\",7".toList]
  | _ => answer [line]

/-- Registered, with the report of changes switched off. -/
def registered : Shape := .nStat (digitOf 10 '0' rfl) (digitOf 10 '1' rfl)

theorem requestRegistrationState_registered :
    ((requestRegistrationState.feed (onLte (registered.line .cereg))).2 = 1
      ↔ Shape.Registered registered.status.numeral.value) ↔ registered.Sound .cereg :=
  requestRegistrationState_iff (onLte (registered.line .cereg))
    ["+COPS: 0,2,\"46000\",7".toList] [] .cereg registered rfl (by decide) rfl

/-- Registered in the area 2, cell 3. -/
def inArea : Shape := .statLacCid (digitOf 10 '1' rfl) (digitOf 16 '2' rfl) (digitOf 16 '3' rfl)

/-- The flag is not set. -/
theorem inArea_lost :
    inArea.line .cereg = "+CEREG:1,2,3".toList ∧ Shape.Registered inArea.status.numeral.value
    ∧ (requestRegistrationState.feed (onLte (inArea.line .cereg))).2 = 0 :=
  ⟨by decide, by decide, by decide⟩

section DataCall

variable {pdp : ℤ}

theorem read_intNum (x : IntNum) : (Number.dec x.num).read = x.value := by
  have h := @strtol_text 10 x.num.numeral [] (fun _ hc => absurd hc List.not_mem_nil) x.range
  obtain ⟨hlow, hhigh⟩ := x.range
  rw [List.append_nil] at h
  change ((strtol 10 x.num.numeral.text).getD 0).bmod (2 ^ 32) = x.num.numeral.value
  rw [h]
  exact Int.bmod_eq_of_le (by simp; omega) (by simp; omega)

theorem scan_ints {name fmt : Line} {xs : List IntNum} (hname : ':' ∉ name) (hne : xs ≠ [])
    (hfmt : conversions fmt = xs.map fun _ => 'd')
    (hlen : (name ++ ':' :: numbers (xs.map (.dec ·.num))).length ≤ 1023) :
    atTokScanf (name ++ ':' :: numbers (xs.map (.dec ·.num))) fmt
      = (xs.length, xs.map fun x => some (.int x.value)) := by
  rw [List.length_append, List.length_cons] at hlen
  have hne' : xs.map (Number.dec ·.num) ≠ [] := by simpa using hne
  have h := @atTokScanf_numbers name fmt [] _ hname (by omega) hne'
    (by rw [hfmt, List.map_map]; rfl) (.inl rfl)
  rw [seen_of_le _ _ hne' (by omega), List.append_nil] at h
  rw [h, List.length_map, List.map_map, List.map_map]
  simp only [Function.comp_def, read_intNum]

theorem scan_netdevctl (l : Netdevctl) :
    atTokScanf l.line "%d%d%d%d".toList = (4, [some (.int l.op.value), some (.int l.cid.value),
      some (.int l.urcEn.value), some (.int l.state.value)]) :=
  @scan_ints "+QNETDEVCTL".toList _ [l.op, l.cid, l.urcEn, l.state] (by decide)
    (List.cons_ne_nil _ _) rfl l.short

theorem scan_cgact (l : Cgact) :
    atTokScanf l.line "%d%d".toList = (2, [some (.int l.cid.value), some (.int l.state.value)]) :=
  @scan_ints "+CGACT".toList _ [l.cid, l.state] (by decide) (List.cons_ne_nil _ _) rfl l.short

/-- After an iteration the variables are those of its line, whatever they were. -/
theorem netdevctl_line (v : Vars) (l : Netdevctl) :
    v.netdevctl pdp l.line = ⟨if l.cid.value = pdp ∧ l.op.value ≠ 1 then 0 else l.op.value,
      l.cid.value, l.state.value⟩ := by
  unfold Vars.netdevctl
  rw [scan_netdevctl]
  by_cases hcid : l.cid.value = pdp
  · by_cases hop : l.op.value = 1
    · simp [intAt, hcid, hop]
    · simp [intAt, hcid, hop]
  · simp [intAt, hcid]

/-- After the loop they are those of the last line. -/
theorem foldl_netdevctl_iff (cid : ℤ) (calls : List Netdevctl) :
    (((calls.map Netdevctl.line).foldl (Vars.netdevctl pdp) ⟨0, cid, 0⟩).bind ≠ 0
      ∧ ((calls.map Netdevctl.line).foldl (Vars.netdevctl pdp) ⟨0, cid, 0⟩).state ≠ 0)
      ↔ LastUp pdp calls := by
  rcases List.eq_nil_or_concat calls with rfl | ⟨ls, l, rfl⟩
  · simp [LastUp]
  · rw [List.concat_eq_append, List.map_append, List.foldl_append]
    unfold LastUp
    rw [List.getLast?_concat]
    simp only [List.map_cons, List.map_nil, List.foldl_cons, List.foldl_nil, netdevctl_line,
      Option.mem_some_iff, exists_eq_left']
    by_cases hcid : l.cid.value = pdp
    · by_cases hop : l.op.value = 1
      · simp [hcid, hop]
      · simp [hcid, hop]
    · simp [hcid, and_comm]

theorem active_cons (c : Cgact) (cs : List Cgact) :
    Active pdp (c :: cs) ↔ (c.cid.value = pdp ∧ c.state.value ≠ 0) ∨ Active pdp cs := by
  unfold Active
  simp

theorem cgact_line (v : Vars) (c : Cgact) (lines : List Line) :
    v.cgact pdp (c.line :: lines)
      = if c.cid.value = pdp then ⟨v.bind, c.cid.value, c.state.value⟩
        else Vars.cgact pdp ⟨v.bind, c.cid.value, 0⟩ lines := by
  rw [Vars.cgact, scan_cgact]
  rfl

/-- The loop ends at the line of the context, or with a state of 0 if there is none; but without any
line the state is what it was. -/
theorem cgact_spec : ∀ (contexts : List Cgact) (v : Vars),
    (contexts.map (·.cid.value)).Nodup →
    (v.cgact pdp (contexts.map Cgact.line)).bind = v.bind
      ∧ ((v.cgact pdp (contexts.map Cgact.line)).state ≠ 0
        ↔ (contexts = [] ∧ v.state ≠ 0) ∨ Active pdp contexts)
  | [], v, _ => by simp [Vars.cgact, Active]
  | c :: cs, v, hnodup => by
    rw [List.map_cons, List.nodup_cons] at hnodup
    rw [List.map_cons, cgact_line]
    by_cases hcid : c.cid.value = pdp
    · have hother : ¬ Active pdp cs := by
        rintro ⟨c', hc', hcid', -⟩
        exact hnodup.1 (List.mem_map.2 ⟨c', hc', hcid'.trans hcid.symm⟩)
      rw [if_pos hcid, active_cons]
      simp [hcid, hother]
    · obtain ⟨hbind, hstate⟩ := cgact_spec cs ⟨v.bind, c.cid.value, 0⟩ hnodup.2
      rw [if_neg hcid, hbind, hstate, active_cons]
      simp [hcid]

/-- For lines of `+QNETDEVCTL`, and lines of `+CGACT` with at most one for a context, the call is
reported exactly if the lines of the context say that it is up, if and only if: where there is no
line of `+CGACT`, the last line of `+QNETDEVCTL` does not say that its call is up; and where the
context is active, the last line says so exactly if the line of the context does. -/
theorem requestQueryDataCall_iff (rs : ℕ → Reply) (pdp cid : ℤ) (calls : List Netdevctl)
    (contexts : List Cgact) (hnodup : (contexts.map (·.cid.value)).Nodup)
    (hcalls : (rs 0).ok.map (·.intermediates) = some (calls.map Netdevctl.line))
    (hcontexts : (rs 1).ok.map (·.intermediates) = some (contexts.map Cgact.line)) :
    (((requestQueryDataCall pdp cid).feed rs).2 = QWDS_PKT_DATA_CONNECTED
      ↔ OwnUp pdp calls ∧ Active pdp contexts)
      ↔ (contexts = [] → ¬ LastUp pdp calls)
        ∧ (Active pdp contexts → (LastUp pdp calls ↔ OwnUp pdp calls)) := by
  have hlast := @foldl_netdevctl_iff pdp cid calls
  have hconnected : ((requestQueryDataCall pdp cid).feed rs).2 = QWDS_PKT_DATA_CONNECTED
      ↔ LastUp pdp calls ∧ (contexts = [] ∨ Active pdp contexts) := by
    unfold requestQueryDataCall
    rw [feed_send_ok hcalls]
    dsimp only
    generalize (calls.map Netdevctl.line).foldl (Vars.netdevctl pdp) ⟨0, cid, 0⟩ = v at hlast ⊢
    by_cases hdown : v.bind = 0 ∨ v.state = 0
    · have hnot : ¬ LastUp pdp calls := by
        rw [← hlast]
        exact fun h => hdown.elim h.1 h.2
      rw [if_pos hdown]
      exact iff_of_false (by decide : QWDS_PKT_DATA_DISCONNECTED ≠ QWDS_PKT_DATA_CONNECTED)
        fun h => hnot h.1
    · obtain ⟨hb, hs⟩ := not_or.1 hdown
      obtain ⟨hbind, hstate⟩ := @cgact_spec pdp contexts v hnodup
      rw [if_neg hdown,
        feed_send_ok (show ((fun n => rs (n + 1)) 0).ok.map (·.intermediates) = some _
          from hcontexts), and_iff_right (hlast.1 ⟨hb, hs⟩), Calls.feed]
      rw [and_iff_left hs] at hstate
      rw [← hstate]
      by_cases hz : (v.cgact pdp (contexts.map Cgact.line)).state = 0
      · rw [if_neg fun h => h.2 hz]
        exact iff_of_false (by decide : QWDS_PKT_DATA_DISCONNECTED ≠ QWDS_PKT_DATA_CONNECTED)
          (not_not.2 hz)
      · rw [if_pos ⟨hbind ▸ hb, hz⟩]
        exact iff_of_true rfl hz
  have hempty : contexts = [] → ¬ Active pdp contexts := by
    rintro rfl ⟨c, hc, -⟩
    exact absurd hc List.not_mem_nil
  rw [hconnected]
  tauto

/-- An `int` of one digit. -/
def intOf (c : Char) (h : isDigit 10 c) (hrange : -2 ^ 31 ≤ (magnitude 10 [c] : ℤ)
    ∧ (magnitude 10 [c] : ℤ) < 2 ^ 31) : IntNum := ⟨digitOf 10 c h, hrange⟩

def zero : IntNum := intOf '0' rfl (by decide)
def one : IntNum := intOf '1' rfl (by decide)
def two : IntNum := intOf '2' rfl (by decide)

/-- The calls of two contexts are up, or only that of the first. -/
def firstUp : Netdevctl := ⟨one, one, one, one, by decide⟩
def secondDown : Netdevctl := ⟨zero, two, one, zero, by decide⟩

def replies (calls : List Netdevctl) (contexts : List Cgact) : ℕ → Reply
  | 0 => answer (calls.map Netdevctl.line)
  | _ => answer (contexts.map Cgact.line)

theorem requestQueryDataCall_firstUp :
    ((requestQueryDataCall 1 0).feed (replies [secondDown, firstUp] [⟨one, one, by decide⟩])).2
      = QWDS_PKT_DATA_CONNECTED ↔ OwnUp 1 [secondDown, firstUp]
        ∧ Active 1 [⟨one, one, by decide⟩] :=
  (requestQueryDataCall_iff (replies [secondDown, firstUp] [⟨one, one, by decide⟩]) 1 0
    [secondDown, firstUp] [⟨one, one, by decide⟩] (by simp) rfl rfl).2
    ⟨fun h => absurd h (List.cons_ne_nil _ _), fun _ =>
      iff_of_true ⟨firstUp, rfl, by decide, by decide⟩
        ⟨firstUp, by simp, by decide, by decide, by decide⟩⟩

/-- The line of the second context comes after that of the first, and its call is down. -/
theorem firstUp_lost :
    OwnUp 1 [firstUp, secondDown] ∧ Active 1 [⟨one, one, by decide⟩]
    ∧ ((requestQueryDataCall 1 0).feed
      (replies [firstUp, secondDown] [⟨one, one, by decide⟩])).2 = QWDS_PKT_DATA_DISCONNECTED :=
  ⟨⟨firstUp, by simp, by decide, by decide, by decide⟩,
    ⟨⟨one, one, by decide⟩, by simp, by decide, by decide⟩, by decide⟩

end DataCall

end Atc

end BananaWrt
