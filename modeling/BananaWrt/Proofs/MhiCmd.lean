import BananaWrt.MhiCmd
import BananaWrt.Lib.Run
import Mathlib.Algebra.Group.Nat.Defs

/-!
# Whose completion ends a wait

A completion finds its way to the channel whose call has sent the command, because the element of
the ring has its number. To which of the channel's commands it belongs is not written anywhere. A
call that re-arms the completion while a command of an earlier call, that has timed out, is still on
the ring is woken by the completion of that one. Where every call finds the ring without commands of
its channel (`Alone`), each wait is ended by the completion of its own command (`inv_step`).
-/

namespace BananaWrt

namespace Mhi

theorem treCmdDword1_eq (type : CmdType) (id : ℕ) :
    treCmdDword1 type id = id * 2 ^ 24 + type.code * 2 ^ 16 := by
  have hlt : type.code <<< 16 < 2 ^ 24 := by cases type <;> decide
  unfold treCmdDword1
  rw [← Nat.shiftLeft_add_eq_or_of_lt hlt, Nat.shiftLeft_eq, Nat.shiftLeft_eq]

theorem treGetCmdType_treCmdDword1 (type : CmdType) (id : ℕ) :
    treGetCmdType (treCmdDword1 type id) = type.code := by
  have hcode : type.code < 256 := by cases type <;> decide
  unfold treGetCmdType
  rw [treCmdDword1_eq, Nat.and_two_pow_sub_one_eq_mod _ 8, Nat.shiftRight_eq_div_pow]
  omega

theorem treGetCmdChid_treCmdDword1 (type : CmdType) {id : ℕ} (hid : id < 256) :
    treGetCmdChid (treCmdDword1 type id) = id := by
  have hcode : type.code < 256 := by cases type <;> decide
  unfold treGetCmdChid
  rw [treCmdDword1_eq, Nat.and_two_pow_sub_one_eq_mod _ 8, Nat.shiftRight_eq_div_pow]
  omega

/-- The element says what the command is. -/
def CmdTre.Encodes (tre : CmdTre) : Prop :=
  match tre.cmd.chan with
  | some c => c < mhiMaxChannels ∧ tre.cmd.type ≠ .tsync ∧ tre.dword1 = treCmdDword1 tre.cmd.type c
  | none => ∃ er, tre.dword1 = treCmdDword1 .tsync er

theorem getNrAvailRingElements_eq_zero_iff {n rp wp : ℕ} (hrp : rp < n) (hwp : wp < n) :
    getNrAvailRingElements n rp wp = 0 ↔ Ring.succ n wp = rp := by
  unfold getNrAvailRingElements Ring.succ
  split_ifs <;> omega

namespace CmdSt

variable {s s' : CmdSt}

/-- The commands of a channel that the modem has not completed. -/
def cmds (s : CmdSt) (c : ℕ) : List Cmd :=
  (s.outstanding.map CmdTre.cmd).filter (·.chan = some c)

structure Wf (s : CmdSt) : Prop where
  rp : s.rp < cmdElPerRing
  wp : s.wp < cmdElPerRing
  encodes : ∀ tre ∈ s.outstanding, tre.Encodes
  call : ∀ c, (s.chan c).call ≠ none → c < mhiMaxChannels
  /-- Commands are completed on the channel of the call that has sent them. -/
  completion : ∀ c, ∀ cmd ∈ (s.chan c).completion, cmd.chan = some c

@[simp] theorem cmds_setChan (c c' : ℕ) (ch : CmdChan) : (s.setChan c ch).cmds c' = s.cmds c' := rfl

@[simp] theorem setChan_self (c : ℕ) (ch : CmdChan) : (s.setChan c ch).chan c = ch := by
  simp [setChan]

theorem setChan_of_ne {c c' : ℕ} (h : c' ≠ c) (ch : CmdChan) :
    (s.setChan c ch).chan c' = s.chan c' := by
  simp [setChan, h]

/-- A property of all channels, after one of them has changed. -/
theorem forall_setChan {P : ℕ → CmdChan → Prop} {c : ℕ} {ch : CmdChan} (hch : P c ch)
    (h : ∀ c', P c' (s.chan c')) (c' : ℕ) : P c' ((s.setChan c ch).chan c') := by
  by_cases heq : c' = c
  · subst heq
    rw [setChan_self]
    exact hch
  · rw [setChan_of_ne heq]
    exact h c'

theorem Wf.setChan (h : s.Wf) {c : ℕ} {ch : CmdChan} (hc : ch.call ≠ none → c < mhiMaxChannels)
    (hcompl : ∀ cmd ∈ ch.completion, cmd.chan = some c) : (s.setChan c ch).Wf where
  rp := h.rp
  wp := h.wp
  encodes := h.encodes
  call := forall_setChan (P := fun c ch => ch.call ≠ none → c < mhiMaxChannels) hc h.call
  completion := forall_setChan (P := fun c ch => ∀ cmd ∈ ch.completion, cmd.chan = some c) hcompl
    h.completion

/-- A channel in use is still in use, or its call has ended. -/
theorem Wf.setCall (h : s.Wf) {c : ℕ} {call : Option ChanCall}
    (hc : call ≠ none → (s.chan c).call ≠ none) : (s.setCall c call).Wf :=
  h.setChan (fun hcall => h.call c (hc hcall)) (h.completion c)

theorem mhiSendCmd_eq_some (h : s.Wf) {type : CmdType} {id : ℕ} {chan : Option ℕ} {cmd : Cmd}
    (hs : s.mhiSendCmd type id chan = some (s', cmd)) :
    cmd = ⟨s.sent, type, chan⟩ ∧ s'.chan = s.chan ∧ s'.log = s.log ∧ s'.rp < cmdElPerRing
      ∧ s'.wp < cmdElPerRing
      ∧ s'.outstanding = s.outstanding ++ [⟨treCmdDword1 type id, cmd⟩] := by
  unfold mhiSendCmd at hs
  simp only [getNrAvailRingElements_eq_zero_iff h.rp h.wp, Option.ite_none_left_eq_some,
    Option.some.injEq, Prod.mk.injEq] at hs
  obtain ⟨hfull, rfl, rfl⟩ := hs
  refine ⟨rfl, rfl, rfl, h.rp, Ring.succ_lt (Nat.zero_lt_of_lt h.wp), ?_⟩
  unfold outstanding
  dsimp only
  rw [Ring.contents_push _ h.rp h.wp hfull, Ring.contents_update _ h.rp h.wp, Function.update_self]

theorem Wf.send (h : s.Wf) {type : CmdType} {id : ℕ} {chan : Option ℕ} {cmd : Cmd}
    (hs : s.mhiSendCmd type id chan = some (s', cmd))
    (henc : CmdTre.Encodes ⟨treCmdDword1 type id, cmd⟩) : s'.Wf := by
  obtain ⟨-, hchan, -, hrp, hwp, hout⟩ := mhiSendCmd_eq_some h hs
  refine ⟨hrp, hwp, ?_, by rw [hchan]; exact h.call, by rw [hchan]; exact h.completion⟩
  rw [hout]
  intro tre htre
  rcases List.mem_append.1 htre with htre | htre
  · exact h.encodes tre htre
  · rw [List.mem_singleton.1 htre]
    exact henc

/-- The element that a completion is for is taken from the ring, and the completion goes to its
channel. -/
theorem mhiProcessCmdCompletion_spec (h : s.Wf) (hne : s.rp ≠ s.wp) (code : ℕ) :
    ∃ pkt, s.outstanding = pkt :: (s.mhiProcessCmdCompletion code).outstanding
      ∧ (s.mhiProcessCmdCompletion code).rp < cmdElPerRing
      ∧ (s.mhiProcessCmdCompletion code).wp = s.wp
      ∧ (s.mhiProcessCmdCompletion code).log = s.log ++ [(pkt.cmd, code)]
      ∧ (s.mhiProcessCmdCompletion code).chan = pkt.cmd.chan.elim s.chan fun c =>
          Function.update s.chan c { s.chan c with
            ccs := code, completion := (s.chan c).completion ++ [pkt.cmd] } := by
  have hout := Ring.contents_pop s.slots h.rp h.wp hne
  have henc := h.encodes (s.slots s.rp) (by unfold outstanding; rw [hout]; exact List.mem_cons_self)
  have hrp : Ring.succ cmdElPerRing s.rp < cmdElPerRing := Ring.succ_lt (Nat.zero_lt_of_lt h.rp)
  refine ⟨s.slots s.rp, ?_⟩
  unfold CmdTre.Encodes at henc
  unfold mhiProcessCmdCompletion
  dsimp only
  rcases hchan : (s.slots s.rp).cmd.chan with _ | c <;> rw [hchan] at henc
  · obtain ⟨er, hdword⟩ := henc
    rw [hdword, treGetCmdType_treCmdDword1, if_pos rfl]
    exact ⟨hout, hrp, rfl, rfl, rfl⟩
  · obtain ⟨hc, htype, hdword⟩ := henc
    have hcode : (s.slots s.rp).cmd.type.code ≠ CmdType.tsync.code := by
      cases heq : (s.slots s.rp).cmd.type with
      | tsync => exact absurd heq htype
      | reset | start => decide
    have hlt : mhiMaxChannels < 256 := by decide
    rw [hdword, treGetCmdType_treCmdDword1, if_neg hcode, treGetCmdChid_treCmdDword1 _ (by omega)]
    exact ⟨hout, hrp, rfl, rfl, rfl⟩

theorem Wf.complete (h : s.Wf) (hne : s.rp ≠ s.wp) (code : ℕ) :
    (s.mhiProcessCmdCompletion code).Wf := by
  obtain ⟨pkt, hout, hrp, hwp, -, hchan⟩ := mhiProcessCmdCompletion_spec h hne code
  refine ⟨hrp, hwp ▸ h.wp, fun tre htre => h.encodes tre ?_, ?_, ?_⟩
  · rw [hout]
    exact List.mem_cons_of_mem _ htre
  · rw [hchan]
    rcases pkt.cmd.chan with _ | c
    · exact h.call
    · exact forall_setChan (P := fun c ch => ch.call ≠ none → c < mhiMaxChannels) (h.call c) h.call
  · rw [hchan]
    rcases hcmd : pkt.cmd.chan with _ | c
    · exact h.completion
    · refine forall_setChan (P := fun c ch => ∀ cmd ∈ ch.completion, cmd.chan = some c) ?_
        h.completion
      intro cmd hmem
      rcases List.mem_append.1 hmem with hmem | hmem
      · exact h.completion c cmd hmem
      · rw [List.mem_singleton.1 hmem]
        exact hcmd

/-- The command of a call on a channel. -/
def IsCmd (cmd : Cmd) (c : ℕ) (op : ChanOp) : Prop := cmd.type = op.cmdType ∧ cmd.chan = some c

theorem encodes_cmd {cmd : Cmd} {c : ℕ} {op : ChanOp} (hc : c < mhiMaxChannels)
    (h : IsCmd cmd c op) : CmdTre.Encodes ⟨treCmdDword1 op.cmdType c, cmd⟩ := by
  unfold CmdTre.Encodes
  rw [h.1, h.2]
  exact ⟨hc, by cases op <;> decide, rfl⟩

/-- What the step of a call that sends its command is, unless the call ends. -/
theorem sendCmd_cases (h : s.Wf) {c : ℕ} (op : ChanOp) (pmError : Bool) :
    s.sendCmd c op pmError = s.setCall c none
      ∨ ∃ s₁ cmd, IsCmd cmd c op ∧ s.mhiSendCmd op.cmdType c (some c) = some (s₁, cmd)
          ∧ s.sendCmd c op pmError = s₁.setCall c (some (.waiting op cmd)) := by
  unfold sendCmd
  cases pmError with
  | true => exact Or.inl rfl
  | false =>
    simp only [Bool.false_eq_true, ↓reduceIte]
    rcases hsend : s.mhiSendCmd op.cmdType c (some c) with _ | ⟨s₁, cmd⟩
    · exact Or.inl rfl
    · obtain ⟨rfl, -⟩ := mhiSendCmd_eq_some h hsend
      exact Or.inr ⟨s₁, _, ⟨rfl, rfl⟩, rfl, rfl⟩

/-- What one step does: nothing; it changes a channel that is in use, or comes into use; it sends
the command of a call; it sends that of `mhi_init_timesync`; or a command is completed. -/
inductive Steps (s : CmdSt) : CmdInput → CmdSt → Prop where
  | stay (inp : CmdInput) : Steps s inp s
  | checked (inp : CmdInput) (c : ℕ) (op : ChanOp) (enabled : Bool)
      (hc : c < mhiMaxChannels) (hcall : (s.chan c).call = none)
      (henabled : enabled → (s.chan c).enabled) :
      Steps s inp (s.setChan c { s.chan c with enabled := enabled, call := some (.checked op) })
  | reinit (c : ℕ) (op : ChanOp) (hcall : (s.chan c).call = some (.checked op)) :
      Steps s (.reinit c) (s.setChan c { s.chan c with completion := [], call := some (.armed op) })
  | ended (inp : CmdInput) (c : ℕ) (hcall : (s.chan c).call ≠ none) :
      Steps s inp (s.setCall c none)
  | sent (c : ℕ) (pmError : Bool) (op : ChanOp) (cmd : Cmd) (s₁ : CmdSt)
      (hcall : (s.chan c).call = some (.armed op)) (hcmd : IsCmd cmd c op)
      (hs : s.mhiSendCmd op.cmdType c (some c) = some (s₁, cmd)) :
      Steps s (.send c pmError) (s₁.setCall c (some (.waiting op cmd)))
  | woken (c : ℕ) (op : ChanOp) (own cause : Cmd) (rest : List Cmd)
      (hcall : (s.chan c).call = some (.waiting op own))
      (hcompl : (s.chan c).completion = cause :: rest) :
      Steps s (.wake c)
        (s.setChan c { s.chan c with completion := rest, call := some (.woken op own cause) })
  | enabled (c : ℕ) (own cause : Cmd) (hcall : (s.chan c).call = some (.woken .prepare own cause))
      (hccs : (s.chan c).ccs = evCcSuccess) :
      Steps s (.finish c)
        (s.setChan c { s.chan c with enabled := true, call := none, startCmd := some own })
  | timsync (erIndex : ℕ) (cmd : Cmd) (s₁ : CmdSt)
      (hs : s.mhiSendCmd .tsync erIndex none = some (s₁, cmd)) : Steps s (.timsync erIndex) s₁
  | completion (code : ℕ) (hne : s.rp ≠ s.wp) :
      Steps s (.completion code) (s.mhiProcessCmdCompletion code)

theorem steps_of_stepCmd (h : s.Wf) {inp : CmdInput} (hs : stepCmd s inp = some s') :
    s.Steps inp s' := by
  cases inp with
  | prepare c ee init =>
    simp only [stepCmd, Option.ite_none_right_eq_some, Option.some.injEq] at hs
    obtain ⟨⟨hc, hcall⟩, rfl⟩ := hs
    unfold mhiPrepareChannel
    split_ifs
    · exact .stay _
    · exact .checked _ c .prepare (s.chan c).enabled hc hcall id
  | unprepare c =>
    simp only [stepCmd, Option.ite_none_right_eq_some, Option.some.injEq] at hs
    obtain ⟨⟨hc, hcall⟩, rfl⟩ := hs
    unfold mhiUnprepareChannel
    split_ifs
    · exact .checked _ c .unprepare false hc hcall (by simp)
    · exact .stay _
  | reinit c =>
    simp only [stepCmd] at hs
    split at hs
    · rename_i op hcall
      cases hs
      exact .reinit c op hcall
    · cases hs
  | send c pmError =>
    simp only [stepCmd] at hs
    split at hs
    · rename_i op hcall
      cases hs
      rcases sendCmd_cases h (c := c) op pmError with heq | ⟨s₁, cmd, hcmd, hsend, heq⟩ <;> rw [heq]
      · exact .ended _ c (by rw [hcall]; exact Option.some_ne_none _)
      · exact .sent c pmError op cmd s₁ hcall hcmd hsend
    · cases hs
  | timeout c =>
    simp only [stepCmd] at hs
    split at hs
    · rename_i op own hcall _
      cases hs
      exact .ended _ c (by rw [hcall]; exact Option.some_ne_none _)
    · cases hs
  | wake c =>
    simp only [stepCmd] at hs
    split at hs
    · rename_i op own cause rest hcall hcompl
      cases hs
      exact .woken c op own cause rest hcall hcompl
    · cases hs
  | finish c =>
    simp only [stepCmd] at hs
    split at hs
    · rename_i op own cause hcall
      cases hs
      have hne : (s.chan c).call ≠ none := by
        rw [hcall]
        exact Option.some_ne_none _
      unfold finish
      cases op with
      | unprepare => exact .ended _ c hne
      | prepare =>
        dsimp only
        split_ifs with hccs
        · exact .enabled c own cause hcall hccs
        · exact .ended _ c hne
    · cases hs
  | timsync erIndex =>
    simp only [stepCmd, Option.some.injEq] at hs
    rcases hsend : s.mhiSendCmd .tsync erIndex none with _ | ⟨s₁, cmd⟩ <;> rw [hsend] at hs <;>
      cases hs
    · exact .stay _
    · exact .timsync erIndex cmd s₁ hsend
  | completion code =>
    simp only [stepCmd, Option.ite_none_left_eq_some, Option.some.injEq] at hs
    obtain ⟨hne, rfl⟩ := hs
    exact .completion code hne

theorem Wf.step (h : s.Wf) {inp : CmdInput} (hs : stepCmd s inp = some s') : s'.Wf := by
  cases steps_of_stepCmd h hs with
  | stay => exact h
  | checked _ c op enabled hc => exact h.setChan (fun _ => hc) (h.completion c)
  | reinit c op hcall =>
    exact h.setChan (fun _ => h.call c (by rw [hcall]; exact Option.some_ne_none _))
      (fun _ hmem => absurd hmem List.not_mem_nil)
  | ended _ c hcall => exact h.setCall fun _ => hcall
  | sent c pmError op cmd s₁ hcall hcmd hsend =>
    have hne : (s.chan c).call ≠ none := by
      rw [hcall]
      exact Option.some_ne_none _
    have hs₁ := h.send hsend (encodes_cmd (h.call c hne) hcmd)
    obtain ⟨-, hchan, -⟩ := mhiSendCmd_eq_some h hsend
    exact hs₁.setCall fun _ => by rw [hchan]; exact hne
  | woken c op own cause rest hcall hcompl =>
    refine h.setChan (fun _ => h.call c (by rw [hcall]; exact Option.some_ne_none _)) ?_
    intro cmd hmem
    exact h.completion c cmd (by rw [hcompl]; exact List.mem_cons_of_mem _ hmem)
  | enabled c own cause hcall => exact h.setChan (fun hne => absurd rfl hne) (h.completion c)
  | timsync erIndex cmd s₁ hsend =>
    obtain ⟨rfl, -⟩ := mhiSendCmd_eq_some h hsend
    exact h.send hsend ⟨erIndex, rfl⟩
  | completion code hne => exact h.complete hne code

theorem wf_initial : CmdSt.initial.Wf where
  rp := by decide
  wp := by decide
  encodes := fun _ h => absurd h List.not_mem_nil
  call := fun _ h => absurd rfl h
  completion := fun _ _ h => absurd h List.not_mem_nil

/-- What holds of a channel, of whose commands `out` are on the ring. -/
def Answered (c : ℕ) (ch : CmdChan) (out : List Cmd) (log : List (Cmd × ℕ)) : Prop :=
  match ch.call with
  | some (.armed _) => out = [] ∧ ch.completion = []
  | some (.waiting op own) => IsCmd own c op ∧
      (out = [own] ∧ ch.completion = [] ∨
        out = [] ∧ ch.completion = [own] ∧ (own, ch.ccs) ∈ log)
  | some (.woken op own cause) => IsCmd own c op ∧ cause = own ∧ out = [] ∧ (own, ch.ccs) ∈ log
  | _ => True

/-- The START command of the call that has enabled the channel was completed with SUCCESS. -/
def Started (c : ℕ) (ch : CmdChan) (log : List (Cmd × ℕ)) : Prop :=
  ch.enabled → ∃ cmd ∈ ch.startCmd, IsCmd cmd c .prepare ∧ (cmd, evCcSuccess) ∈ log

/-- A call that re-arms the completion of its channel finds no command of the channel on the ring.
-/
def Alone (s : CmdSt) : CmdInput → Prop
  | .reinit c => ∀ tre ∈ s.outstanding, tre.cmd.chan ≠ some c
  | _ => True

instance (s : CmdSt) (inp : CmdInput) : Decidable (s.Alone inp) := by
  cases inp <;> unfold Alone <;> infer_instance

structure Inv (s : CmdSt) : Prop where
  wf : s.Wf
  answered : ∀ c, Answered c (s.chan c) (s.cmds c) s.log
  started : ∀ c, Started c (s.chan c) s.log

theorem Inv.setChan (h : s.Inv) {c : ℕ} {ch : CmdChan} (hwf : (s.setChan c ch).Wf)
    (ha : Answered c ch (s.cmds c) s.log) (hst : Started c ch s.log) : (s.setChan c ch).Inv where
  wf := hwf
  answered := forall_setChan (P := fun c ch => Answered c ch (s.cmds c) s.log) ha h.answered
  started := forall_setChan (P := fun c ch => Started c ch s.log) hst h.started

theorem cmds_eq_nil_iff (c : ℕ) : s.cmds c = [] ↔ ∀ tre ∈ s.outstanding, tre.cmd.chan ≠ some c := by
  unfold cmds
  rw [List.filter_eq_nil_iff, List.forall_mem_map]
  simp

theorem cmds_append {out : List CmdTre} {tre : CmdTre} (h : s'.outstanding = out ++ [tre])
    (hout : out = s.outstanding) (c : ℕ) :
    s'.cmds c = if tre.cmd.chan = some c then s.cmds c ++ [tre.cmd] else s.cmds c := by
  unfold cmds
  rw [h, hout, List.map_append, List.filter_append]
  split_ifs with hchan <;> simp [hchan]

theorem cmds_cons {tre : CmdTre} (h : s.outstanding = tre :: s'.outstanding) (c : ℕ) :
    s.cmds c = if tre.cmd.chan = some c then tre.cmd :: s'.cmds c else s'.cmds c := by
  unfold cmds
  rw [h, List.map_cons]
  split_ifs with hchan <;> simp [hchan]

theorem Started.mono {c : ℕ} {ch : CmdChan} {log log' : List (Cmd × ℕ)} (h : Started c ch log)
    (hlog : ∀ e ∈ log, e ∈ log') : Started c ch log' := fun henabled =>
  let ⟨cmd, hmem, hcmd, hdone⟩ := h henabled
  ⟨cmd, hmem, hcmd, hlog _ hdone⟩

theorem Answered.mono {c : ℕ} {ch : CmdChan} {out : List Cmd} {log log' : List (Cmd × ℕ)}
    (h : Answered c ch out log) (hlog : ∀ e ∈ log, e ∈ log') : Answered c ch out log' := by
  unfold Answered at *
  split at h
  · exact h
  · obtain ⟨hcmd, h | ⟨hout, hcompl, hdone⟩⟩ := h
    · exact ⟨hcmd, Or.inl h⟩
    · exact ⟨hcmd, Or.inr ⟨hout, hcompl, hlog _ hdone⟩⟩
  · obtain ⟨hcmd, hcause, hout, hdone⟩ := h
    exact ⟨hcmd, hcause, hout, hlog _ hdone⟩
  · trivial

/-- A command is put on the ring: only that of a call in `armed` changes what holds of a channel. -/
theorem Inv.send (h : s.Inv) {type : CmdType} {id : ℕ} {chan : Option ℕ} {cmd : Cmd} {s₁ : CmdSt}
    (hs : s.mhiSendCmd type id chan = some (s₁, cmd)) :
    (∀ c, cmd.chan ≠ some c → Answered c (s₁.chan c) (s₁.cmds c) s₁.log)
      ∧ (∀ c, cmd.chan = some c → s₁.cmds c = s.cmds c ++ [cmd])
      ∧ ∀ c, Started c (s₁.chan c) s₁.log := by
  obtain ⟨-, hchan, hlog, -, -, hout⟩ := mhiSendCmd_eq_some h.wf hs
  refine ⟨fun c hc => ?_, fun c hc => ?_, fun c => ?_⟩
  · rw [cmds_append hout rfl, if_neg hc, hchan, hlog]
    exact h.answered c
  · rw [cmds_append hout rfl, if_pos hc]
  · rw [hchan, hlog]
    exact h.started c

/-- The completion of the only command that is on the ring for a waiting call. -/
theorem Answered.complete {c : ℕ} {ch : CmdChan} {out : List Cmd} {cmd : Cmd}
    {log : List (Cmd × ℕ)} {code : ℕ} (h : Answered c ch (cmd :: out) log) :
    Answered c { ch with ccs := code, completion := ch.completion ++ [cmd] } out
      (log ++ [(cmd, code)]) := by
  unfold Answered at *
  dsimp only
  split at h
  · exact absurd h.1 (List.cons_ne_nil _ _)
  · obtain ⟨hcmd, ⟨hout, hcompl⟩ | ⟨hout, -⟩⟩ := h
    · obtain ⟨rfl, rfl⟩ := List.cons_eq_cons.1 hout
      refine ⟨hcmd, Or.inr ⟨rfl, by rw [hcompl, List.nil_append], ?_⟩⟩
      exact List.mem_append_right _ List.mem_cons_self
    · exact absurd hout (List.cons_ne_nil _ _)
  · exact absurd h.2.2.1 (List.cons_ne_nil _ _)
  · trivial

/-- The armed call's command joins the ring, and the call waits for it. -/
theorem Inv.sent (h : s.Inv) {c : ℕ} {op : ChanOp} {cmd : Cmd} {s₁ : CmdSt}
    (hwf : (s₁.setCall c (some (.waiting op cmd))).Wf) (hcall : (s.chan c).call = some (.armed op))
    (hcmd : IsCmd cmd c op) (hsend : s.mhiSendCmd op.cmdType c (some c) = some (s₁, cmd)) :
    (s₁.setCall c (some (.waiting op cmd))).Inv := by
  obtain ⟨hother, hown, hstarted⟩ := h.send hsend
  obtain ⟨-, hchan, -⟩ := mhiSendCmd_eq_some h.wf hsend
  have harmed := h.answered c
  unfold Answered at harmed
  rw [hcall] at harmed
  refine ⟨hwf, fun c' => ?_, fun c' => ?_⟩
  · by_cases heq : c' = c
    · subst heq
      rw [setCall, setChan_self, cmds_setChan, hown c' hcmd.2, harmed.1, hchan]
      exact ⟨hcmd, Or.inl ⟨rfl, harmed.2⟩⟩
    · rw [setCall, setChan_of_ne heq]
      exact hother c' fun hc' => heq (Option.some.inj (hc'.symm.trans hcmd.2))
  · refine forall_setChan (P := fun c ch => Started c ch s₁.log) ?_ hstarted c'
    exact hstarted c

/-- The first command on the ring is completed, for its own channel. -/
theorem Inv.completion (h : s.Inv) (hne : s.rp ≠ s.wp) (code : ℕ)
    (hwf : (s.mhiProcessCmdCompletion code).Wf) : (s.mhiProcessCmdCompletion code).Inv := by
  obtain ⟨pkt, hout, -, -, hlog, hchan⟩ := mhiProcessCmdCompletion_spec h.wf hne code
  have hmono : ∀ e ∈ s.log, e ∈ s.log ++ [(pkt.cmd, code)] := fun _ he =>
    List.mem_append_left _ he
  refine ⟨hwf, fun c => ?_, fun c => ?_⟩
  · have hc := h.answered c
    rw [cmds_cons hout] at hc
    rw [hlog, hchan]
    rcases hcmd : pkt.cmd.chan with _ | c'
    · rw [hcmd, if_neg (Option.some_ne_none c).symm] at hc
      exact hc.mono hmono
    · rw [Option.elim_some]
      by_cases heq : c = c'
      · subst heq
        rw [if_pos hcmd] at hc
        rw [Function.update_self]
        exact hc.complete
      · rw [if_neg fun hc' => heq (Option.some.inj (hc'.symm.trans hcmd))] at hc
        rw [Function.update_of_ne heq]
        exact hc.mono hmono
  · rw [hlog, hchan]
    rcases pkt.cmd.chan with _ | c'
    · exact (h.started c).mono hmono
    · refine forall_setChan (P := fun c ch => Started c ch (s.log ++ [(pkt.cmd, code)])) ?_
        (fun c => (h.started c).mono hmono) c
      exact (h.started c').mono hmono

theorem Inv.step (h : s.Inv) {inp : CmdInput} (hal : s.Alone inp) (hs : stepCmd s inp = some s') :
    s'.Inv := by
  have hwf := h.wf.step hs
  cases steps_of_stepCmd h.wf hs with
  | stay => exact h
  | checked _ c op enabled hc hcall henabled =>
    exact h.setChan hwf trivial fun he => h.started c (henabled he)
  | reinit c op hcall =>
    exact h.setChan hwf ⟨(cmds_eq_nil_iff c).2 hal, rfl⟩ (h.started c)
  | ended _ c hcall => exact h.setChan hwf trivial (h.started c)
  | sent c pmError op cmd s₁ hcall hcmd hsend => exact h.sent hwf hcall hcmd hsend
  | woken c op own cause rest hcall hcompl =>
    have hwait := h.answered c
    unfold Answered at hwait
    rw [hcall, hcompl] at hwait
    refine h.setChan hwf ?_ (h.started c)
    obtain ⟨hcmd, ⟨-, habs⟩ | ⟨hout, hone, hdone⟩⟩ := hwait
    · exact absurd habs (List.cons_ne_nil _ _)
    · exact ⟨hcmd, (List.cons_eq_cons.1 hone).1, hout, hdone⟩
  | enabled c own cause hcall hccs =>
    have hwoken := h.answered c
    unfold Answered at hwoken
    rw [hcall] at hwoken
    obtain ⟨hcmd, -, -, hdone⟩ := hwoken
    rw [hccs] at hdone
    exact h.setChan hwf trivial fun _ => ⟨own, rfl, hcmd, hdone⟩
  | timsync erIndex cmd s₁ hsend =>
    obtain ⟨hother, -, hstarted⟩ := h.send hsend
    obtain ⟨hcmd, -⟩ := mhiSendCmd_eq_some h.wf hsend
    refine ⟨hwf, fun c => hother c ?_, hstarted⟩
    rw [hcmd]
    exact (Option.some_ne_none c).symm
  | completion code hne => exact h.completion hne code hwf

theorem inv_initial : CmdSt.initial.Inv :=
  ⟨wf_initial, fun _ => trivial, fun _ he => absurd he Bool.false_ne_true⟩

/-! ## Runs -/

/-- A channel is enabled only by a call whose own START command was completed with SUCCESS, a wait
is ended only by the completion of the command of its own call, and a completion goes to the channel
that the command is of. -/
structure Correlated (s : CmdSt) : Prop where
  started : ∀ c, Started c (s.chan c) s.log
  woken : ∀ c op own cause, (s.chan c).call = some (.woken op own cause) → cause = own
  completion : ∀ c, ∀ cmd ∈ (s.chan c).completion, cmd.chan = some c

theorem Inv.correlated (h : s.Inv) : s.Correlated where
  started := h.started
  woken := by
    intro c op own cause hcall
    have hc := h.answered c
    unfold Answered at hc
    rw [hcall] at hc
    exact hc.2.1
  completion := h.wf.completion

end CmdSt

/-- In whatever order calls, timeouts and completions come, a completion goes to the channel that
its command is of. -/
theorem completion_own_chan {is : List CmdInput} {s : CmdSt}
    (hr : Runs.exec stepCmd CmdSt.initial is = some s) (c : ℕ) :
    ∀ cmd ∈ (s.chan c).completion, cmd.chan = some c :=
  (Runs.exec_keeps (fun _ _ _ h hs => CmdSt.Wf.step h hs) CmdSt.wf_initial hr).completion c

/-- In every run in which a call re-arms the completion only when no command of its channel is on
the ring, completions are those of the commands that are waited for. -/
theorem correlated_of_alone {is : List CmdInput} {s : CmdSt}
    (hal : Runs.Meets stepCmd CmdSt.Alone CmdSt.initial is)
    (hr : Runs.exec stepCmd CmdSt.initial is = some s) : s.Correlated :=
  (Runs.exec_inv (fun _ _ _ h hal hs => h.step hal hs) CmdSt.inv_initial hal hr).correlated

/-- A START command that times out, and is completed before the channel is prepared once more. -/
def answeredLate : List CmdInput :=
  [.prepare 0 true true, .reinit 0, .send 0 false, .timeout 0, .completion evCcSuccess,
    .prepare 0 true true, .reinit 0, .send 0 false, .completion evCcSuccess, .wake 0, .finish 0]

theorem correlated_answeredLate :
    ∃ s, Runs.exec stepCmd CmdSt.initial answeredLate = some s ∧ s.Correlated := by
  have hal : Runs.Meets stepCmd CmdSt.Alone CmdSt.initial answeredLate := by decide
  exact ⟨_, rfl, correlated_of_alone hal rfl⟩

/-- A START command that times out, and is completed when the channel is prepared once more. -/
def answeredNext : List CmdInput :=
  [.prepare 0 true true, .reinit 0, .send 0 false, .timeout 0,
    .prepare 0 true true, .reinit 0, .send 0 false, .completion evCcSuccess, .wake 0, .finish 0]

/-- The channel is enabled by the call whose START command is still on the ring. -/
theorem uncorrelated_answeredNext :
    ∃ s, Runs.exec stepCmd CmdSt.initial answeredNext = some s ∧ (s.chan 0).enabled
      ∧ (s.chan 0).startCmd = some ⟨1, .start, some 0⟩
      ∧ s.outstanding = [⟨treCmdDword1 .start 0, ⟨1, .start, some 0⟩⟩]
      ∧ s.log = [(⟨0, .start, some 0⟩, evCcSuccess)] ∧ ¬ s.Correlated := by
  refine ⟨_, rfl, rfl, rfl, rfl, rfl, fun h => ?_⟩
  obtain ⟨cmd, hmem, -, hdone⟩ := h.started 0 rfl
  cases hmem
  revert hdone
  decide

end Mhi

end BananaWrt
