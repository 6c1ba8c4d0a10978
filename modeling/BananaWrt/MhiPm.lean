import Mathlib.Data.List.Basic

/-!
# Power states of MHI

`pm_state` is what the host has decided on and `dev_state` what it knows of the modem. A new
`pm_state` is taken on by `mhi_tryset_pm_state` only if the table of `mhi_pm.c` has a transition to
it from the one at hand.
-/

namespace BananaWrt

namespace Mhi

/-- `enum MHI_PM_STATE`, in the order of its bits. -/
inductive PmState where
  | disable
  | por
  | m0
  | m2
  | m3Enter
  | m3
  | m3Exit
  | fwDlErr
  | sysErrDetect
  | sysErrProcess
  | shutdownProcess
  | ldErrFatalDetect
  deriving DecidableEq, Repr

/-- `mhi_state_transitions`. -/
def PmState.toStates : PmState → List PmState
  | disable => [por]
  | por => [por, disable, m0, sysErrDetect, shutdownProcess, ldErrFatalDetect, fwDlErr]
  | m0 => [m2, m3Enter, sysErrDetect, shutdownProcess, ldErrFatalDetect, fwDlErr]
  | m2 => [m0, sysErrDetect, shutdownProcess, ldErrFatalDetect]
  | m3Enter => [m3, sysErrDetect, shutdownProcess, ldErrFatalDetect]
  | m3 => [m3Exit, sysErrDetect, shutdownProcess, ldErrFatalDetect]
  | m3Exit => [m0, sysErrDetect, shutdownProcess, ldErrFatalDetect]
  | fwDlErr => [fwDlErr, sysErrDetect, shutdownProcess, ldErrFatalDetect]
  | sysErrDetect => [sysErrProcess, shutdownProcess, ldErrFatalDetect]
  | sysErrProcess => [por, shutdownProcess, ldErrFatalDetect]
  | shutdownProcess => [disable, ldErrFatalDetect]
  | ldErrFatalDetect => [ldErrFatalDetect, shutdownProcess]

/-- The state that is returned, and that `pm_state` has afterwards. -/
def mhiTrysetPmState (cur state : PmState) : PmState :=
  if state ∈ cur.toStates then state else cur

/-- `MHI_PM_IN_ERROR_STATE`: the states from `fwDlErr` on. -/
def PmState.InError (s : PmState) : Prop :=
  s ∈ [fwDlErr, sysErrDetect, sysErrProcess, shutdownProcess, ldErrFatalDetect]

instance (s : PmState) : Decidable s.InError := inferInstanceAs (Decidable (_ ∈ _))

/-- `enum mhi_dev_state`. -/
inductive DevState where
  | reset
  | ready
  | m0
  | m1
  | m2
  | m3
  | bhi
  | sysErr
  deriving DecidableEq, Repr

theorem mhiTrysetPmState_cases (cur state : PmState) :
    (state ∈ cur.toStates ∧ mhiTrysetPmState cur state = state)
      ∨ (state ∉ cur.toStates ∧ mhiTrysetPmState cur state = cur) := by
  unfold mhiTrysetPmState
  by_cases h : state ∈ cur.toStates
  · exact Or.inl ⟨h, if_pos h⟩
  · exact Or.inr ⟨h, if_neg h⟩

/-- Another state is taken on if and only if the table has the transition. -/
theorem mhiTrysetPmState_eq_iff {cur state : PmState} (h : cur ≠ state) :
    mhiTrysetPmState cur state = state ↔ state ∈ cur.toStates := by
  rcases mhiTrysetPmState_cases cur state with ⟨hmem, heq⟩ | ⟨hmem, heq⟩
  · exact iff_of_true heq hmem
  · exact iff_of_false (fun heq' => h (heq.symm.trans heq')) hmem

/-- A state that was not asked for was there before. -/
theorem mhiTrysetPmState_of_ne {cur state new : PmState} (hstate : state ≠ new)
    (h : mhiTrysetPmState cur state = new) : cur = new := by
  rcases mhiTrysetPmState_cases cur state with ⟨-, heq⟩ | ⟨-, heq⟩
  · exact absurd (heq.symm.trans h) hstate
  · exact heq.symm.trans h

end Mhi

end BananaWrt
