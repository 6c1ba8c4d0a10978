import BananaWrt.Proofs.QmiThread
import BananaWrt.QmiSession

/-!
# What an operation's success means

An operation returns zero when `qmi_rsp_check_and_return` lets its response pass. It also returns
zero when the wait was ended without a response, since then `err` is zero and `pResponse` is
`NULL`, and when the response has a result but no error. Without these, a zero means that the
modem answered the operation's own request with success (`modemSaidSo_of_spoken`).
-/

namespace BananaWrt

namespace QmiSession

open Bytes Qmi QmiThread QmiRequests

/-- After a call whose reply is `r`, a program returns zero only if the check of `r` does. -/
def Heeds (c : Calls Request Reply ℤ) : Prop :=
  ∃ q k, c = .call q k ∧ ∀ r, (k r).Always fun v => v = 0 → r.code = 0

theorem heeds_request {α : Type} {q : Request} {fail : ℤ → α}
    {k : Bytes → Calls Request Reply α} {ret : α → ℤ} (hfail : ∀ e, ret (fail e) = e) :
    Heeds ((request q fail k).map ret) := by
  refine ⟨q, _, rfl, fun r => ?_⟩
  cases hr : qmiRspCheckAndReturn r with
  | error e =>
    simp only [hr, Calls.bind, Calls.Always, hfail, code_of_error hr, imp_self]
  | ok b => exact Calls.Always.of_forall fun _ _ => code_of_ok hr

theorem heeds_setupDataCall (s : State) (f : IpFamily) :
    Heeds ((requestSetupDataCall s f).map Prod.fst) := by
  refine ⟨_, _, rfl, fun r => ?_⟩
  cases hr : qmiRspCheck r with
  | error e =>
    have hcode : r.code = e := code_of_error (by simp [qmiRspCheckAndReturn, hr])
    simp only [hr, Calls.bind, Calls.Always, hcode, imp_self]
  | ok b =>
    by_cases hb : muxResult b ≠ 0 ∨ muxError b ≠ 0
    · have hcode : r.code = muxError b := code_of_error (by simp [qmiRspCheckAndReturn, hr, hb])
      simp only [hr, if_pos hb, Calls.bind, Calls.Always, hcode, imp_self]
    · have hok : qmiRspCheckAndReturn r = .ok b := by simp [qmiRspCheckAndReturn, hr, hb]
      exact Calls.Always.of_forall fun _ _ => code_of_ok hok

/-- An operation leaves early, or heeds the reply to its first request. -/
theorem prog_spec (s : State) (op : Op) :
    (∃ v, op.prog s = .ret v ∧ (v = 0 → op.EarlyExit s)) ∨ Heeds (op.prog s) := by
  cases op with
  | setupDataCall f => exact .inr (heeds_setupDataCall s f)
  | queryDataCall status f => exact .inr (heeds_request fun _ => rfl)
  | deactivateDefaultPDP f =>
    by_cases h : s.handle f = 0
    · exact .inl ⟨0, by simp only [Op.prog, requestDeactivateDefaultPDP, if_pos h]; rfl, fun _ => h⟩
    · simp only [Op.prog, requestDeactivateDefaultPDP, if_neg h]
      exact .inr (heeds_request fun _ => rfl)
  | getIPAddress f =>
    by_cases h : s.handle f = 0
    · refine .inl ⟨0, ?_, fun _ => h⟩
      cases f <;> simp only [State.handle] at h <;>
        simp [Op.prog, requestGetIPAddress, State.handle, h] <;> rfl
    · have h' : State.handle { s with profile := clearAddress f s.profile } f ≠ 0 := by
        cases f <;> exact h
      simp only [Op.prog, requestGetIPAddress, if_neg h']
      exact .inr (heeds_request fun _ => rfl)
  | registrationState psAttachedState =>
    simp only [Op.prog, requestRegistrationState]
    split_ifs
    · exact .inr (heeds_request fun _ => rfl)
    · exact .inr (heeds_request fun _ => rfl)
  | setProfile =>
    simp only [Op.prog, requestSetProfile]
    split_ifs with hpdp hset
    · exact .inl ⟨-1, rfl, fun h => by simp at h⟩
    · exact .inl ⟨0, rfl, fun _ => hset⟩
    · exact .inr (heeds_request fun _ => rfl)

/-- The response is long enough to have a result, and both result and error are zero. -/
def Succeeded (b : Bytes) : Prop := 20 ≤ b.length ∧ muxResult b = 0 ∧ muxError b = 0

/-- The call was answered with success. -/
def Said (w : World) (r : Return) : Prop :=
  ∃ m ∈ r.response, ∃ c ∈ w.calls, r.call = some c.number ∧ Answers c m ∧ Succeeded m.msg

/-- Every operation that returned zero took its early exit, or its request was answered with
success. -/
def ModemSaidSo (s : Session) : Prop :=
  ∀ o ∈ s.outcomes, o.ret = 0 → o.op.EarlyExit o.start ∨ ∃ r ∈ o.own, Said s.world r

/-- While an operation waits for the reply to its first request, messages are timely, and the
wait is ended only by a response that has a result, and has an error whenever the result is not
zero. -/
def Spoken (s : Session) : Input → Prop
  | .start _ _ => True
  | .thread i => ∀ t ∈ s.task, t.own = none → Timely s.world i ∧ (i = .wake →
    ∃ r ∈ s.world.sResponse, 20 ≤ r.msg.length ∧ (muxResult r.msg ≠ 0 → muxError r.msg ≠ 0))

instance (s : Session) : ∀ i : Input, Decidable (Spoken s i)
  | .start _ _ => .isTrue trivial
  | .thread _ => inferInstanceAs (Decidable (∀ t ∈ _, _))

structure Followed (w : World) (t : Task) : Prop where
  fresh : t.own = none → Held w ∧ t.prog = t.op.prog t.start
  later : ∀ r ∈ t.own, t.prog.Always fun v => v = 0 → Said w r
  asked : ∀ c ∈ w.waiting, c.2 = true

structure Sound (s : Session) : Prop where
  tracked : Tracked s.world
  task : ∀ t ∈ s.task, Followed s.world t ∧ ∃ q k, t.prog = .call q k
  said : ModemSaidSo s

theorem Said.mono {w w' : World} (h : w.calls ⊆ w'.calls) {r : Return} (hr : Said w r) :
    Said w' r := by
  obtain ⟨m, hm, c, hc, hcm⟩ := hr
  exact ⟨m, hm, c, h hc, hcm⟩

theorem ModemSaidSo.mono {s : Session} (h : ModemSaidSo s) {w : World}
    (hc : s.world.calls ⊆ w.calls) : ModemSaidSo { s with world := w } := by
  intro o ho hret
  rcases h o ho hret with hexit | ⟨r, hr, hsaid⟩
  · exact .inl hexit
  · exact .inr ⟨r, hr, hsaid.mono hc⟩

theorem sound_settle {s : Session} {w : World} {t : Task} (hw : Tracked w)
    (hs : ModemSaidSo { s with world := w }) (ht : Followed w t) : Sound (s.settle w t) := by
  unfold Session.settle
  split
  · rename_i v hv
    refine ⟨hw, by simp, ?_⟩
    intro o ho hret
    rcases List.mem_append.1 ho with ho | ho
    · exact hs o ho hret
    · rw [List.mem_singleton.1 ho] at hret ⊢
      cases hown : t.own with
      | none =>
        obtain ⟨-, hprog⟩ := ht.fresh hown
        rcases prog_spec t.start t.op with ⟨v', hv', hexit⟩ | ⟨q, k, hq, -⟩
        · rw [← hprog, hv, Calls.ret.injEq] at hv'
          exact .inl (hexit (hv' ▸ hret))
        · rw [← hprog, hv] at hq
          cases hq
      | some r =>
        have hlater := ht.later r hown
        rw [hv] at hlater
        exact .inr ⟨r, rfl, hlater hret⟩
  · rename_i q k hq
    refine ⟨hw, ?_, hs⟩
    intro t' ht'
    rw [← Option.mem_some_iff.1 ht']
    exact ⟨ht, q, k, hq⟩

theorem succeeded_of_code {b : Bytes} (hlen : 20 ≤ b.length)
    (hb : muxResult b ≠ 0 → muxError b ≠ 0) (hz : Reply.code ⟨0, some b⟩ = 0) : Succeeded b := by
  by_cases h : muxResult b ≠ 0 ∨ muxError b ≠ 0
  · rw [code_of_error (e := muxError b) (by simp [qmiRspCheckAndReturn, qmiRspCheck, h])] at hz
    exact absurd (Int.natCast_eq_zero.1 hz) (h.elim hb id)
  · push Not at h
    exact ⟨hlen, h⟩

theorem said_of_code {w w' : World} {i : QmiThread.Input} {r : Return} (h : Tracked w)
    (hheld : Held w) (hasked : ∀ c ∈ w.waiting, c.2 = true) (hcalls : w.calls ⊆ w'.calls)
    (hwake : i = .wake → ∃ r ∈ w.sResponse,
      20 ≤ r.msg.length ∧ (muxResult r.msg ≠ 0 → muxError r.msg ≠ 0))
    (hr : (r.err ≠ 0 ∧ r.response = none) ∨ i = .wake ∧ ∃ c ∈ w.waiting,
      r = ⟨some c.1.number, 0, if c.2 then w.sResponse else none⟩)
    (hz : Reply.code ⟨r.err, r.response.map Received.msg⟩ = 0) : Said w' r := by
  rcases hr with ⟨herr, hnone⟩ | ⟨hi, c, hc, rfl⟩
  · rw [code_of_error (e := r.err) (by simp [qmiRspCheckAndReturn, qmiRspCheck, hnone])] at hz
    exact absurd hz herr
  · obtain ⟨m, hm, hlen, hclear⟩ := hwake hi
    have hresp : (if c.2 then w.sResponse else none) = some m := by
      rw [if_pos (hasked c hc)]
      exact hm
    rw [hresp] at hz ⊢
    exact ⟨m, rfl, c.1, hcalls (h.last c hc).1, rfl, hheld c hc m hm,
      succeeded_of_code hlen hclear hz⟩

theorem Followed.keep {w w' : World} {t : Task} (h : Followed w t) (hcalls : w.calls ⊆ w'.calls)
    (hheld : t.own = none → Held w') (hasked : ∀ c ∈ w'.waiting, c.2 = true) : Followed w' t :=
  ⟨fun hown => ⟨hheld hown, (h.fresh hown).2⟩,
    fun r hr => (h.later r hr).mono fun _ hv hv0 => (hv hv0).mono hcalls, hasked⟩

theorem Followed.resume {w w' : World} {t : Task} {r : Return} (h : Followed w t)
    (hprog : ∃ q k, t.prog = .call q k) (hcalls : w.calls ⊆ w'.calls)
    (hsaid : t.own = none → Reply.code ⟨r.err, r.response.map Received.msg⟩ = 0 → Said w' r)
    (hasked : ∀ c ∈ w'.waiting, c.2 = true) : Followed w' (t.resume r) := by
  obtain ⟨q, k, hq⟩ := hprog
  unfold Task.resume
  rw [hq]
  cases hown : t.own with
  | none =>
    refine ⟨by simp, ?_, hasked⟩
    intro r' hr'
    obtain rfl := Option.mem_some_iff.1 hr'
    rcases prog_spec t.start t.op with ⟨v, hv, -⟩ | ⟨q', k', hq', hk'⟩
    · rw [← (h.fresh hown).2, hq] at hv
      cases hv
    · rw [← (h.fresh hown).2, hq] at hq'
      cases hq'
      exact (hk' _).mono fun v hv (hv0 : v = 0) => hsaid hown (hv hv0)
  | some r₀ =>
    refine ⟨by simp, ?_, hasked⟩
    intro r' hr'
    obtain rfl := Option.mem_some_iff.1 hr'
    have hlater := h.later r₀ hown
    rw [hq] at hlater
    exact (hlater _).mono fun v hv hv0 => (hv hv0).mono hcalls

theorem sound_after {s : Session} {w : World} {i : QmiThread.Input} (h : Sound s)
    (hok : Spoken s (.thread i)) (hcan : s.CanTake i) (hw : QmiThread.step s.world i = some w) :
    Sound (s.after w) := by
  have htracked := step_tracked h.tracked hw
  obtain ⟨hcalls, hret⟩ := step_returned hw
  have hmono := h.said.mono hcalls
  cases ht : s.task with
  | none =>
    unfold Session.after
    rw [ht]
    exact ⟨htracked, by simp, hmono⟩
  | some t =>
    obtain ⟨hfollowed, hprog⟩ := h.task t ht
    have hasked : ∀ c ∈ w.waiting, c.2 = true := by
      refine step_asked hfollowed.asked ?_ hw
      rintro req alloc clientId dev pp rfl
      exact (hcan t ht).2
    rcases hret with heq | ⟨r, heq, hr⟩
    · have hnone : w.returned[s.world.returned.length]? = none := by
        rw [heq]
        exact List.getElem?_eq_none (Nat.le_refl _)
      unfold Session.after
      rw [hnone, ht]
      refine ⟨htracked, ?_, hmono⟩
      intro t' ht'
      obtain rfl : t = t' := Option.mem_some_iff.1 ht'
      exact ⟨hfollowed.keep hcalls (fun hown =>
        step_held h.tracked (hfollowed.fresh hown).1 (hok t ht hown).1 hw) hasked, hprog⟩
    · have hsome : w.returned[s.world.returned.length]? = some r := by
        rw [heq]
        simp
      unfold Session.after
      rw [hsome, ht]
      exact sound_settle htracked hmono (hfollowed.resume hprog hcalls (fun hown =>
        said_of_code h.tracked (hfollowed.fresh hown).1 hfollowed.asked hcalls
          (hok t ht hown).2 hr) hasked)

theorem step_sound {s s' : Session} {i : Input} (h : Sound s) (hok : Spoken s i)
    (hs : step s i = some s') : Sound s' := by
  cases i with
  | start op state =>
    simp only [step] at hs
    split_ifs at hs with hguard
    push Not at hguard
    cases hs
    have hwaiting : s.world.waiting = none :=
      Option.not_isSome_iff_eq_none.1 (by simpa using hguard.2)
    exact sound_settle h.tracked h.said
      ⟨fun _ => ⟨by simp [Held, hwaiting], rfl⟩, by simp, by simp [hwaiting]⟩
  | thread i =>
    simp only [step] at hs
    split_ifs at hs with hcan
    obtain ⟨w, hw, rfl⟩ := Option.map_eq_some_iff.1 hs
    exact sound_after h hok hcan hw

theorem sound_init : Sound Session.init where
  tracked := tracked_init
  task := by simp [Session.init]
  said := by simp [ModemSaidSo, Session.init]

/-- `mbim_check_err` never returns zero, and goes on only with a response of status zero. -/
theorem mbimCheckErr_spec (r : Reply) :
    (∀ e, mbimCheckErr r = .error e → e ≠ 0)
      ∧ ∀ b, mbimCheckErr r = .ok b → r.err = 0 ∧ r.response = some b ∧ mbimStatusCode b = 0 := by
  by_cases herr : r.err = 0
  · cases hresp : r.response with
    | none => simp [mbimCheckErr, herr, hresp]
    | some b =>
      by_cases hst : mbimStatusCode b = 0
      · simp [mbimCheckErr, herr, hresp, hst]
      · simp [mbimCheckErr, herr, hresp, hst]
  · simp [mbimCheckErr, herr]

/-- In every run in which the wait for an operation's reply is ended by a response that says
whether it succeeded, an operation returns zero only if it left early or the modem answered its
own request with success. The MBIM check needs no such condition. -/
theorem modemSaidSo_of_spoken (is : List Input) (s : Session)
    (hok : Runs.Meets step Spoken Session.init is) (hr : run is = some s) :
    ModemSaidSo s
      ∧ ∀ r, (∀ e, mbimCheckErr r = .error e → e ≠ 0)
        ∧ ∀ b, mbimCheckErr r = .ok b → r.err = 0 ∧ r.response = some b ∧ mbimStatusCode b = 0 := by
  refine ⟨?_, mbimCheckErr_spec⟩
  have hsound : Sound s :=
    Runs.exec_inv (fun _ _ _ h hok hs => step_sound h hok hs) sound_init hok hr
  exact hsound.said

def blankProfile : Profile :=
  ⟨none, none, none, 0, 0, 1, true, false, 0, Ipv4.zero, Ipv6.zero, 0, 0, zero16, zero16, 0, 0,
    [], [], [], 0, 0⟩

def upState : State := ⟨blankProfile, 7, 0, false, 0, 0, true⟩

def stopSent : List Input :=
  [.start (.deactivateDefaultPDP .v4) upState,
    .thread (.send (.mux 1 0x21 [1, 4, 0, 7, 0, 0, 0]) true 2 ⟨true, 1, true, 20⟩ true)]

def stopAnswer : Bytes := [1, 19, 0, 0x80, 1, 2, 2, 1, 0, 0x21, 0, 7, 0, 2, 4, 0, 0, 0, 0, 0]

def stopAnswered : List Input :=
  stopSent ++ [.thread (.recv stopAnswer (.response 0) true), .thread .wake]

theorem modemSaidSo_stopAnswered : ∃ s, run stopAnswered = some s
    ∧ s.outcomes = [⟨.deactivateDefaultPDP .v4, upState,
        some ⟨some 0, 0, some ⟨stopAnswer, .response 0⟩⟩, 0⟩]
    ∧ ModemSaidSo s :=
  ⟨_, rfl, rfl, (modemSaidSo_of_spoken stopAnswered _ (by decide) rfl).1⟩

/-- The reader thread quits while the answer is waited for: the operation returns zero without
one. -/
theorem not_modemSaidSo_quit : ∃ s,
    run (stopSent ++ [.thread .recvNull, .thread .wake]) = some s
    ∧ s.outcomes = [⟨.deactivateDefaultPDP .v4, upState, some ⟨some 0, 0, none⟩, 0⟩]
    ∧ ¬ ModemSaidSo s := by
  refine ⟨_, rfl, rfl, fun h => ?_⟩
  rcases h _ (List.mem_singleton.2 rfl) rfl with hexit | ⟨r, hr, m, hm, -⟩
  · have hhandle : upState.handle .v4 = 0 := hexit
    exact absurd hhandle (by decide)
  · cases hr
    cases hm

end QmiSession

end BananaWrt
