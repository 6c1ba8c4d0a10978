import Mathlib.Data.List.Nodup
import Mathlib.Tactic.Common
import BananaWrt.PatchManager

/-!
# A number of failures is not a status

What `apply_patches` returns is 0 exactly if the number of failures is a multiple of 256
(`status_eq_zero_iff`), and all files of a tree are at their destinations exactly if that number is
0, no path has a line break and no file got into a directory (`applied_iff`).
-/

namespace BananaWrt

namespace Patch

namespace Attempt

/-- The iteration does not count a failure. -/
def Works (a : Attempt) : Prop := (a.hasParent ∨ a.mkdir) ∧ a.cp ≠ .failed

instance (a : Attempt) : Decidable a.Works := inferInstanceAs (Decidable (_ ∧ _))

def Copies (a : Attempt) : Prop := (a.hasParent ∨ a.mkdir) ∧ a.cp = .copied

end Attempt

namespace Tree

/-- How many of the iterations fail; a destination that is missing is one failure. -/
def failures (t : Tree) : ℕ :=
  match t.files with
  | none => 0
  | some fs =>
    if fs = [] then 0
    else if ¬ t.destExists then 1
    else (List.range (t.lines fs).length).countP fun i => ¬ (t.attempt i).Works

/-- No path has a line break, and no `cp` finds a directory of that name. -/
def Clean (t : Tree) : Prop :=
  ∀ fs ∈ t.files, (∀ rel ∈ fs, '\n' ∉ t.path rel)
    ∧ ∀ i < (t.lines fs).length, (t.attempt i).cp ≠ .inDirectory

/-- Every file of the tree has been copied to the same path in the destination. -/
def Applied (t : Tree) (copied : List (Path × Path)) : Prop :=
  ∀ fs ∈ t.files, ∀ rel ∈ fs, (t.path rel, t.destDir ++ '/' :: rel) ∈ copied

def HasFile (t : Tree) : Prop := ∃ fs ∈ t.files, fs ≠ []

end Tree

/-- The script succeeds exactly if every file was applied. -/
def MainRight (env : Environment) (dts files : Tree) : Prop :=
  (main env dts files).1 = 0
    ↔ dts.Applied (main env dts files).2.1 ∧ files.Applied (main env dts files).2.2

/-- One of the numbers of failures is not a multiple of 256, or there is none and every file comes
to its destination. -/
def RightWhen (env : Environment) (dts files : Tree) : Prop :=
  if validateEnvironment env then
    (¬ 256 ∣ dts.failures ∨ ¬ 256 ∣ files.failures)
      ∨ (dts.failures = 0 ∧ dts.Clean) ∧ files.failures = 0 ∧ files.Clean
  else dts.HasFile ∨ files.HasFile

namespace Tree

variable {t : Tree} {fs : List Path}

theorem destFile_path (t : Tree) (rel : Path) :
    t.destFile (t.path rel) = t.destDir ++ '/' :: rel := by
  unfold destFile relPath
  have hpath : t.path rel = (t.patchDir ++ ['/']) ++ rel := by
    unfold path
    rw [List.append_assoc, List.singleton_append]
  rw [if_pos ⟨rel, hpath.symm⟩, hpath, List.drop_append_of_le_length (by simp),
    List.drop_of_length_le (by simp), List.nil_append]

theorem path_inj {rel rel' : Path} : t.path rel = t.path rel' ↔ rel = rel' := by
  unfold path
  rw [List.append_cancel_left_eq, List.cons_inj_right]

/-- A path with a line break is no line. -/
theorem notMem_of_mem_lines {file : Path} (h : file ∈ t.lines fs) : '\n' ∉ file :=
  List.notMem_of_mem_dropLast_splitOn h

theorem lines_eq (h : ∀ rel ∈ fs, '\n' ∉ t.path rel) : t.lines fs = fs.map t.path := by
  have hfind : t.find fs = (fs.map t.path).flatMap fun l => l ++ ['\n'] := by
    unfold find
    rw [List.flatMap_map]
  unfold lines
  rw [hfind, List.dropLast_splitOn_flatMap]
  intro l hl
  obtain ⟨rel, hrel, rfl⟩ := List.mem_map.1 hl
  exact h rel hrel

/-- `find` prints nothing exactly if there is no file. -/
theorem count_find_eq_zero_iff : (t.find fs).count '\n' = 0 ↔ fs = [] := by
  rw [List.count_eq_zero]
  constructor
  · intro h
    refine List.eq_nil_iff_forall_not_mem.2 fun rel hrel => h ?_
    exact List.mem_flatMap.2 ⟨rel, hrel, List.mem_append_right _ (List.mem_singleton_self _)⟩
  · rintro rfl
    exact List.not_mem_nil

end Tree

section Loop

variable (t : Tree)

theorem iteration_failedCount (a : Attempt) (p : Progress) (file : Path) :
    (iteration t a p file).failedCount = p.failedCount + if a.Works then 0 else 1 := by
  unfold iteration Attempt.Works
  rcases a with ⟨parent, mkdir, cp⟩
  cases parent <;> cases mkdir <;> cases cp <;> rfl

theorem mem_iteration_copied (a : Attempt) (p : Progress) (file : Path) (x : Path × Path) :
    x ∈ (iteration t a p file).copied
      ↔ x ∈ p.copied ∨ a.Copies ∧ x = (file, t.destFile file) := by
  unfold iteration Attempt.Copies
  rcases a with ⟨parent, mkdir, cp⟩
  cases parent <;> cases mkdir <;> cases cp <;> simp

theorem applyLoop_failedCount : ∀ (n : ℕ) (ls : List Path) (p : Progress),
    (applyLoop t n ls p).failedCount
      = p.failedCount + (List.range' n ls.length).countP fun i => ¬ (t.attempt i).Works
  | _, [], _ => rfl
  | n, file :: ls, p => by
    rw [applyLoop, applyLoop_failedCount, iteration_failedCount, List.length_cons,
      List.range'_succ, List.countP_cons]
    by_cases h : (t.attempt n).Works
    · simp [h]
    · simp [h]
      omega

theorem mem_applyLoop_copied : ∀ (n : ℕ) (ls : List Path) (p : Progress) (x : Path × Path),
    x ∈ (applyLoop t n ls p).copied ↔ x ∈ p.copied
      ∨ ∃ i file, ls[i]? = some file ∧ (t.attempt (n + i)).Copies ∧ x = (file, t.destFile file)
  | _, [], _, _ => by simp [applyLoop]
  | n, file :: ls, p, x => by
    rw [applyLoop, mem_applyLoop_copied, mem_iteration_copied, or_assoc]
    refine or_congr_right ⟨?_, ?_⟩
    · rintro (⟨hc, hx⟩ | ⟨i, file', hi, hc, hx⟩)
      · exact ⟨0, file, rfl, hc, hx⟩
      · refine ⟨i + 1, file', hi, ?_, hx⟩
        rwa [← Nat.add_assoc, Nat.add_right_comm]
    · rintro ⟨i, file', hi, hc, hx⟩
      cases i with
      | zero =>
        cases hi
        exact .inl ⟨hc, hx⟩
      | succ i =>
        refine .inr ⟨i, file', hi, ?_, hx⟩
        rwa [Nat.add_right_comm, Nat.add_assoc]

end Loop

section Trees

variable {t : Tree} {fs : List Path}

/-- A tree that is not there, or has no file, or nowhere to go. -/
theorem applyPatches_skip (h : ∀ fs ∈ t.files, fs = [] ∨ ¬ t.destExists) :
    (applyPatches t).1 = t.failures ∧ t.failures ≤ 1 ∧ (applyPatches t).2 = []
      ∧ (t.failures = 0 ↔ ¬ t.HasFile) := by
  unfold applyPatches Tree.failures Tree.HasFile
  rcases hfiles : t.files with _ | fs
  · simp
  · simp only [Tree.count_find_eq_zero_iff]
    by_cases hfs : fs = []
    · simp [hfs]
    · have hdest := (h fs hfiles).resolve_left hfs
      simp [hfs, hdest]

/-- What is returned and copied otherwise. -/
theorem applyPatches_loop (h : t.files = some fs) (hfs : fs ≠ []) (hdest : t.destExists) :
    (applyPatches t).1 = t.failures % 256
      ∧ (applyPatches t).2 = (applyLoop t 0 (t.lines fs) ⟨0, 0, []⟩).copied
      ∧ t.failures = (List.range (t.lines fs).length).countP fun i => ¬ (t.attempt i).Works := by
  have hcount : ¬ (t.find fs).count '\n' = 0 := fun h => hfs (Tree.count_find_eq_zero_iff.1 h)
  unfold applyPatches Tree.failures
  rw [h]
  simp only [hcount, hfs, hdest, if_false, not_true_eq_false, applyLoop_failedCount, Nat.zero_add,
    List.range_eq_range', and_self]

/-- The status forgets how often 256 iterations have failed. -/
theorem status_eq_zero_iff (t : Tree) : (applyPatches t).1 = 0 ↔ 256 ∣ t.failures := by
  by_cases h : ∀ fs ∈ t.files, fs = [] ∨ ¬ t.destExists
  · obtain ⟨hret, hle, -⟩ := applyPatches_skip h
    rw [hret]
    omega
  · push Not at h
    obtain ⟨fs, hfiles, hfs, hdest⟩ := h
    rw [(applyPatches_loop hfiles hfs hdest).1]
    exact Nat.dvd_iff_mod_eq_zero.symm

theorem not_applied_nil (h : t.HasFile) : ¬ t.Applied [] := by
  obtain ⟨fs, hfiles, hfs⟩ := h
  obtain ⟨rel, hrel⟩ := List.exists_mem_of_ne_nil fs hfs
  exact fun happ => List.not_mem_nil (happ fs hfiles rel hrel)

theorem applied_of_not_hasFile (h : ¬ t.HasFile) (copied : List (Path × Path)) :
    t.Applied copied := by
  intro fs hfiles rel hrel
  exact absurd ⟨fs, hfiles, List.ne_nil_of_mem hrel⟩ h

/-- All files come to their destinations exactly if every line is a file that is copied. -/
theorem applied_loop_iff (h : t.files = some fs) :
    t.Applied (applyLoop t 0 (t.lines fs) ⟨0, 0, []⟩).copied
      ↔ (∀ rel ∈ fs, '\n' ∉ t.path rel)
        ∧ ∀ i < (t.lines fs).length, (t.attempt i).Copies := by
  constructor
  · intro happ
    have hcopied : ∀ rel ∈ fs, ∃ i : ℕ, (t.lines fs)[i]? = some (t.path rel)
        ∧ (t.attempt i).Copies := by
      intro rel hrel
      rcases (mem_applyLoop_copied t 0 _ _ _).1 (happ fs h rel hrel) with
        hnil | ⟨i, file, hi, hc, hx⟩
      · exact absurd hnil List.not_mem_nil
      · rw [Nat.zero_add] at hc
        rw [(Prod.mk.inj hx).1]
        exact ⟨i, hi, hc⟩
    have hclean : ∀ rel ∈ fs, '\n' ∉ t.path rel := by
      intro rel hrel
      obtain ⟨i, hi, -⟩ := hcopied rel hrel
      exact Tree.notMem_of_mem_lines (List.mem_of_getElem? hi)
    refine ⟨hclean, fun i hi => ?_⟩
    -- each line is the path of one file only, so the iteration that copied the file is this one
    have hlines := Tree.lines_eq hclean
    rw [hlines] at hi hcopied
    have hnodup : (fs.map t.path).Nodup :=
      List.Nodup.map (fun rel rel' heq => Tree.path_inj.1 heq) (t.nodup fs h)
    obtain ⟨rel, hrel, hpath⟩ := List.mem_map.1 (List.getElem_mem hi)
    obtain ⟨j, hj, hc⟩ := hcopied rel hrel
    obtain ⟨hjlt, hj⟩ := List.getElem?_eq_some_iff.1 hj
    have hij : i = j := hnodup.getElem_inj_iff.1 (hpath.symm.trans hj.symm)
    rw [hij]
    exact hc
  · rintro ⟨hclean, hall⟩ fs' hfs' rel hrel
    cases h.symm.trans hfs'
    have hmem : t.path rel ∈ t.lines fs := by
      rw [Tree.lines_eq hclean]
      exact List.mem_map_of_mem hrel
    obtain ⟨i, hi, hline⟩ := List.mem_iff_getElem.1 hmem
    refine (mem_applyLoop_copied t 0 _ _ _).2 (.inr ⟨i, t.path rel, ?_, ?_, ?_⟩)
    · exact List.getElem?_eq_some_iff.2 ⟨hi, hline⟩
    · rw [Nat.zero_add]
      exact hall i hi
    · rw [Tree.destFile_path]

theorem copies_iff (a : Attempt) : a.Copies ↔ a.Works ∧ a.cp ≠ .inDirectory := by
  unfold Attempt.Copies Attempt.Works
  rcases a with ⟨parent, mkdir, cp⟩
  cases cp <;> simp

theorem applied_iff (t : Tree) : t.Applied (applyPatches t).2 ↔ t.failures = 0 ∧ t.Clean := by
  by_cases h : ∀ fs ∈ t.files, fs = [] ∨ ¬ t.destExists
  · obtain ⟨-, -, hcopied, hzero⟩ := applyPatches_skip h
    rw [hcopied]
    constructor
    · intro happ
      have hno : ¬ t.HasFile := fun hfile => not_applied_nil hfile happ
      refine ⟨hzero.2 hno, fun fs hfs => ?_⟩
      have hnil : fs = [] := by
        by_contra hne
        exact hno ⟨fs, hfs, hne⟩
      subst hnil
      exact ⟨fun rel hrel => absurd hrel List.not_mem_nil,
        fun i hi => absurd hi (Nat.not_lt_zero i)⟩
    · exact fun ⟨hfail, _⟩ => applied_of_not_hasFile (hzero.1 hfail) []
  · push Not at h
    obtain ⟨fs, hfiles, hfs, hdest⟩ := h
    obtain ⟨-, hcopied, hfail⟩ := applyPatches_loop hfiles hfs hdest
    rw [hcopied, applied_loop_iff hfiles, hfail, List.countP_eq_zero]
    simp only [copies_iff, List.mem_range, decide_not, Bool.not_eq_true',
      decide_eq_false_iff_not, not_not]
    constructor
    · rintro ⟨hclean, hall⟩
      refine ⟨fun i hi => (hall i hi).1, fun fs' hfs' => ?_⟩
      cases hfiles.symm.trans hfs'
      exact ⟨hclean, fun i hi => (hall i hi).2⟩
    · rintro ⟨hall, hclean⟩
      obtain ⟨hclean, hdir⟩ := hclean fs hfiles
      exact ⟨hclean, fun i hi => ⟨hall i hi, hdir i hi⟩⟩

end Trees

section Main

variable {env : Environment} {dts files : Tree}

theorem main_exit (h : validateEnvironment env = false) : main env dts files = (1, [], []) := by
  unfold main
  rw [h]
  rfl

theorem main_copied (h : validateEnvironment env = true) :
    (main env dts files).2 = ((applyPatches dts).2, (applyPatches files).2) := by
  unfold main
  rw [h]
  rfl

theorem main_eq_zero_iff (h : validateEnvironment env = true) :
    (main env dts files).1 = 0 ↔ 256 ∣ dts.failures ∧ 256 ∣ files.failures := by
  rw [← status_eq_zero_iff, ← status_eq_zero_iff, ← Nat.add_eq_zero_iff]
  unfold main
  simp only [h, not_true_eq_false, if_false]
  by_cases hsum : (applyPatches dts).1 + (applyPatches files).1 = 0
  · exact iff_of_true (if_pos hsum) hsum
  · rw [if_neg hsum]
    exact iff_of_false Nat.one_ne_zero hsum

/-- A failure that is not reported. -/
theorem not_mainRight (h : validateEnvironment env = true) (hret : (main env dts files).1 = 0)
    (hfail : dts.failures ≠ 0) : ¬ MainRight env dts files := by
  intro hright
  have happ := (hright.1 hret).1
  rw [main_copied h, applied_iff] at happ
  exact hfail happ.1

end Main

/-- With nothing but failures in a multiple of 256 the script reports success. -/
theorem main_right_iff (env : Environment) (dts files : Tree) :
    MainRight env dts files ↔ RightWhen env dts files := by
  unfold MainRight RightWhen
  cases henv : validateEnvironment env with
  | false =>
    rw [main_exit henv, if_neg Bool.false_ne_true]
    constructor
    · intro h
      by_contra hno
      push Not at hno
      exact absurd (h.2 ⟨applied_of_not_hasFile hno.1 [], applied_of_not_hasFile hno.2 []⟩)
        Nat.one_ne_zero
    · rintro (h | h)
      · exact iff_of_false Nat.one_ne_zero fun happ => not_applied_nil h happ.1
      · exact iff_of_false Nat.one_ne_zero fun happ => not_applied_nil h happ.2
  | true =>
    rw [main_eq_zero_iff henv, main_copied henv, applied_iff, applied_iff, if_pos rfl]
    constructor
    · intro h
      by_cases hdvd : 256 ∣ dts.failures ∧ 256 ∣ files.failures
      · exact .inr (h.1 hdvd)
      · exact .inl (not_and_or.1 hdvd)
    · rintro (h | h)
      · refine iff_of_false (not_and_or.2 h) fun ⟨h1, h2⟩ => ?_
        rw [h1.1, h2.1] at h
        exact h.elim (fun h => h (Nat.dvd_zero 256)) fun h => h (Nat.dvd_zero 256)
      · refine iff_of_true ⟨?_, ?_⟩ h
        · rw [h.1.1]
          exact Nat.dvd_zero 256
        · rw [h.2.1]
          exact Nat.dvd_zero 256

/-- A tree of 256 files, none of which can be copied. -/
def unreadable : Tree where
  patchDir := ['p']
  destDir := ['d']
  files := some ((List.range 256).map fun n => List.replicate (n + 1) 'f')
  destExists := true
  attempt := fun _ => ⟨true, false, .failed⟩
  nodup := by
    intro fs hfs
    cases hfs
    refine List.Nodup.map (fun m n h => ?_) List.nodup_range
    have := congrArg List.length h
    simpa using this

def absent : Tree where
  patchDir := ['q']
  destDir := ['e']
  files := none
  destExists := true
  attempt := fun _ => ⟨true, false, .failed⟩
  nodup := fun _ h => by cases h

theorem failures_unreadable : unreadable.failures = 256 := by
  have hclean : ∀ rel ∈ (List.range 256).map fun n => List.replicate (n + 1) 'f',
      '\n' ∉ unreadable.path rel := by
    intro rel hrel
    obtain ⟨n, -, rfl⟩ := List.mem_map.1 hrel
    simp [Tree.path, unreadable]
  have hfail : ∀ i, ¬ (unreadable.attempt i).Works := fun _ h => h.2 rfl
  have hfiles : unreadable.files
      = some ((List.range 256).map fun n => List.replicate (n + 1) 'f') :=
    rfl
  rw [(applyPatches_loop hfiles (by simp) rfl).2.2, Tree.lines_eq hclean,
    List.countP_eq_length.2 fun i _ => decide_eq_true (hfail i)]
  simp only [List.length_range, List.length_map]

/-- Nothing is applied, and the script succeeds. -/
theorem main_unreadable : ¬ MainRight ⟨true, true, true⟩ unreadable absent
    ∧ (main ⟨true, true, true⟩ unreadable absent).1 = 0 := by
  have henv : validateEnvironment ⟨true, true, true⟩ = true := rfl
  have hret : (main ⟨true, true, true⟩ unreadable absent).1 = 0 :=
    (main_eq_zero_iff henv).2 ⟨⟨1, failures_unreadable⟩, ⟨0, rfl⟩⟩
  refine ⟨not_mainRight henv hret ?_, hret⟩
  rw [failures_unreadable]
  exact Nat.succ_ne_zero 255

end Patch

end BananaWrt
