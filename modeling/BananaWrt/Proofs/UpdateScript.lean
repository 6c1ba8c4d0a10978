import BananaWrt.UpdateScript

/-!
# When a dry run is invisible

A dry run leaves everything as it is but the images of the selected release that are not there:
these it creates, and they are empty (`execute_dry`). A later run that writes to each of them before
it looks for them does not tell the difference (`execute_congr`); one that it does not write to is
there at its end (`after_run`). So the dry run is invisible exactly if the later run replaces what
the dry run has created (`invisible_iff`), which then is of the version that the dry run selected
(`version_of_mem_images`). The images that are there are flashed whatever they hold
(`install_of_ready`).
-/

namespace BananaWrt

namespace Updater

open Script

variable {Opkg : Type} {sys : System Opkg} {o : Options} {i : Inputs} {s : Selection}
  {d : Device Opkg} {m : Machine Opkg}

theorem dryRun_of_mem : ∀ {words : List String} {mode : Option Mode} {dryRun reset : Bool},
    readArgs mode dryRun reset words = some o → dryRun ∨ "--dry-run" ∈ words → o.dryRun
  | [], mode, dryRun, reset, h, hdry => by
    obtain ⟨mode, -, rfl⟩ := Option.map_eq_some_iff.1 h
    exact hdry.resolve_right List.not_mem_nil
  | word :: words, mode, dryRun, reset, h, hdry => by
    have hrest : word ≠ "--dry-run" → dryRun ∨ "--dry-run" ∈ words := fun hne =>
      hdry.imp_right fun hmem => (List.mem_cons.1 hmem).resolve_left fun he => hne he.symm
    unfold readArgs at h
    split at h
    · rename_i mode' hmode
      split_ifs at h
      refine dryRun_of_mem h (hrest ?_)
      rintro rfl
      simp [modeOf] at hmode
    · split_ifs at h with hword hreset
      · exact dryRun_of_mem h (.inl rfl)
      · exact dryRun_of_mem h (hrest hword)

theorem Asset.mem_all : ∀ a, a ∈ Asset.all
  | .emmcPreloader | .emmcBl31Uboot | .initramfsRecovery | .squashfsSysupgrade => by simp [all]

/-- The images stay, and those that are flashed are images of the version. -/
def Flashes (version : String) (m m' : Machine Opkg) : Prop :=
  m'.files = m.files ∧ ∀ w ∈ m'.writes, w ∈ m.writes ∨ ∃ a, w.image = Asset.path version a

instance (version : String) : Std.Refl (Flashes version : Machine Opkg → Machine Opkg → Prop) where
  refl _ := ⟨rfl, fun _ hw => .inl hw⟩

instance (version : String) : IsTrans (Machine Opkg) (Flashes version) where
  trans m₁ m₂ m₃ h₁ h₂ := by
    refine ⟨h₂.1.trans h₁.1, fun w hw => ?_⟩
    rcases h₂.2 w hw with hw | hw
    · exact h₁.2 w hw
    · exact .inr hw

theorem dd_of_readOnly {partition : Partition} {image : String} {contents : Bytes}
    (h : partition = .boot0 ∧ m.forceRo) : dd partition image contents m = .ok false m := by
  show (if _ then _ else _ : Updates Opkg Bool) m = _
  rw [if_pos h]
  rfl

theorem dd_of_writable {partition : Partition} {image : String} {contents : Bytes}
    (h : ¬ (partition = .boot0 ∧ m.forceRo)) : dd partition image contents m
      = .ok (contents.length ≤ (m.partitions partition).length) (m.write partition image contents) := by
  show (if _ then _ else _ : Updates Opkg Bool) m = _
  rw [if_neg h]
  rfl

theorem keeps_dd (version : String) (a : Asset) (partition : Partition) (contents : Bytes) :
    Keeps (Flashes version) (dd partition (a.path version) contents : Updates Opkg Bool) := by
  intro m
  by_cases hro : partition = .boot0 ∧ m.forceRo
  · rw [after_of_ok (dd_of_readOnly hro)]
    exact refl_of (Flashes version) m
  · rw [after_of_ok (dd_of_writable hro)]
    refine ⟨rfl, fun w hw => ?_⟩
    rcases List.mem_append.1 hw with hw | hw
    · exact .inl hw
    · obtain rfl := List.mem_singleton.1 hw
      exact .inr ⟨a, rfl⟩

theorem keeps_ddImage (version : String) (a : Asset) (partition : Partition) :
    Keeps (Flashes version) (ddImage partition (a.path version) : Updates Opkg Bool) := by
  refine keeps_get.bind fun m => ?_
  cases m.files (a.path version) with
  | none => exact keeps_pure false
  | some contents => exact keeps_dd version a partition contents

theorem keeps_flashPartition (o : Options) (version : String) (a : Asset) (partition : Partition) :
    Keeps (Flashes version) (flashPartition o partition (a.path version) : Updates Opkg Unit) :=
  (keeps_pure ()).ite <| (keeps_dd version a partition _).bind fun _ =>
    (keeps_exitIf _ _).bind fun _ => (keeps_ddImage version a partition).bind fun _ =>
      keeps_exitIf _ _

theorem keeps_enableWrites (sys : System Opkg) (o : Options) (version : String) :
    Keeps (Flashes version) (enableWrites sys o) :=
  (keeps_pure ()).ite <| (keeps_exitIf _ _).bind fun _ =>
    keeps_modify fun _ => ⟨rfl, fun _ hw => .inl hw⟩

/-- Only the compat version is changed. -/
theorem keeps_sysupgrade {R : Machine Opkg → Machine Opkg → Prop} [Std.Refl R] [IsTrans _ R]
    (h : ∀ m v, R m { m with compatVersion := v }) (sys : System Opkg) (o : Options)
    (image : String) : Keeps R (sysupgrade sys o image) := by
  have hlog : ∀ log, Keeps R (readLog sys log) := fun log =>
    Keeps.ite ((keeps_exitIf _ _).bind fun _ => keeps_modify fun m => by
      split_ifs
      · exact h m _
      · exact refl_of R m) (keeps_pure ())
  exact keeps_get.bind fun _ => (hlog _).bind fun _ => keeps_get.bind fun _ => keeps_exitIf _ _

/-- The images stay, and those that are flashed are there. -/
def Sourced (m m' : Machine Opkg) : Prop :=
  m'.files = m.files ∧ ∀ w ∈ m'.writes, w ∈ m.writes ∨ m.files w.image ≠ none

instance : Std.Refl (Sourced : Machine Opkg → Machine Opkg → Prop) where
  refl _ := ⟨rfl, fun _ hw => .inl hw⟩

instance : IsTrans (Machine Opkg) Sourced where
  trans m₁ m₂ m₃ h₁ h₂ := by
    refine ⟨h₂.1.trans h₁.1, fun w hw => ?_⟩
    rcases h₂.2 w hw with hw | hw
    · exact h₁.2 w hw
    · exact .inr (h₁.1 ▸ hw)

/-- All four images are there, or the check ends the run. -/
theorem check_cases (version : String) (m : Machine Opkg) :
    (∀ a, m.files (Asset.path version a) ≠ none)
        ∧ forEach (fun a : Asset => exitIf (m.files (a.path version) = none)
          (fail ("Required file not found: " ++ a.path version))) Asset.all m = .ok () m
      ∨ (∃ a, m.files (Asset.path version a) = none)
        ∧ ∃ e, forEach (fun a : Asset => exitIf (m.files (a.path version) = none)
          (fail ("Required file not found: " ++ a.path version))) Asset.all m = .error e m := by
  rcases forEach_exitIf (c := fun a : Asset => m.files (a.path version) = none)
      (e := fun a => fail ("Required file not found: " ++ a.path version)) m Asset.all with
    ⟨hall, hcheck⟩ | ⟨a, -, hnone, hcheck⟩
  · exact .inl ⟨fun a => hall a (Asset.mem_all a), hcheck⟩
  · exact .inr ⟨⟨a, hnone⟩, _, hcheck⟩

theorem check_of_files {version : String} (h : ∀ a, m.files (Asset.path version a) ≠ none) :
    forEach (fun a : Asset => exitIf (m.files (a.path version) = none)
      (fail ("Required file not found: " ++ a.path version))) Asset.all m = .ok () m := by
  rcases check_cases version m with ⟨-, hcheck⟩ | ⟨⟨a, hnone⟩, -⟩
  · exact hcheck
  · exact absurd hnone (h a)

/-- Only after the check is anything written. -/
theorem keeps_install (sys : System Opkg) (o : Options) (i : Inputs) (version : String) :
    Keeps Sourced (install sys o i version) := by
  refine (keeps_exitIf _ _).bind fun _ m => ?_
  rw [after_get_bind]
  rcases check_cases version m with ⟨hall, hcheck⟩ | ⟨-, e, hcheck⟩
  · rw [after_bind_of_ok hcheck]
    have hrest := (keeps_enableWrites sys o version).bind fun _ =>
      (keeps_flashPartition o version .emmcPreloader .boot0).bind fun _ =>
      (keeps_flashPartition o version .emmcBl31Uboot .p3).bind fun _ =>
      (keeps_flashPartition o version .initramfsRecovery .p4).bind fun _ =>
      keeps_sysupgrade (fun _ _ => ⟨rfl, fun _ hw => .inl hw⟩) sys o
        (Asset.path version .squashfsSysupgrade)
    obtain ⟨hfiles, hwrites⟩ := hrest m
    refine ⟨hfiles, fun w hw => (hwrites w hw).imp_right ?_⟩
    rintro ⟨a, ha⟩
    rw [ha]
    exact hall a
  · rw [after_bind_of_error hcheck]
    exact refl_of Sourced m

theorem sourced_of_eq {m' : Machine Opkg} (hf : m'.files = m.files) (hw : m'.writes = m.writes) :
    Sourced m m' :=
  ⟨hf, fun _ h => .inl (hw ▸ h)⟩

theorem keeps_packages (sys : System Opkg) (o : Options) (i : Inputs) :
    Keeps Sourced (packages sys o i) := by
  refine (keeps_exitIf _ _).bind fun _ => (keeps_exitIf _ _).bind fun _ =>
    (keeps_exitIf _ _).bind fun _ => (keeps_exitIf _ _).bind fun _ =>
    (keeps_ofExcept _).bind fun index => (keeps_exitIf _ _).bind fun _ => keeps_get.bind fun _ =>
    (keeps_exitIf _ _).bind fun _ => (keeps_exitIf _ _).bind fun _ => ?_
  refine ((keeps_pure ()).ite (keeps_modify fun m => ?_)).bind fun _ =>
    ((keeps_pure ()).ite (keeps_modify fun m => ?_)).bind fun _ =>
    keeps_forEach (fun pkg => (keeps_pure ()).ite (keeps_modify fun m => ?_)) _
  · split_ifs <;> exact sourced_of_eq rfl rfl
  · exact sourced_of_eq rfl rfl
  · split_ifs <;> exact sourced_of_eq rfl rfl

/-- The images in `W` are changed, each by what `g` makes of its contents. -/
def Machine.patch (m : Machine Opkg) (W : List String) (g : String → Option Bytes → Option Bytes) :
    Machine Opkg :=
  { m with files := fun p => if p ∈ W then g p (m.files p) else m.files p }

theorem patch_nil (m : Machine Opkg) (g : String → Option Bytes → Option Bytes) :
    m.patch [] g = m := rfl

/-- The change that changes `W` by `g` and then `W'` by `g'`. -/
def andThen (W W' : List String) (g g' : String → Option Bytes → Option Bytes) (p : String)
    (c : Option Bytes) : Option Bytes :=
  if p ∈ W' then g' p (if p ∈ W then g p c else c) else g p c

theorem patch_patch (m : Machine Opkg) (W W' : List String)
    (g g' : String → Option Bytes → Option Bytes) :
    (m.patch W g).patch W' g' = m.patch (W ++ W') (andThen W W' g g') := by
  have hfiles : (fun p => if p ∈ W' then g' p (if p ∈ W then g p (m.files p) else m.files p)
        else if p ∈ W then g p (m.files p) else m.files p)
      = fun p => if p ∈ W ++ W' then andThen W W' g g' p (m.files p) else m.files p := by
    funext p
    unfold andThen
    by_cases hW : p ∈ W <;> by_cases hW' : p ∈ W' <;> simp [hW, hW']
  show ({ m with files := fun p => if p ∈ W' then g' p (if p ∈ W then g p (m.files p) else m.files p)
      else if p ∈ W then g p (m.files p) else m.files p } : Machine Opkg) = _
  rw [hfiles]
  rfl

theorem setFile_eq_patch {path : String} {contents : Bytes}
    {g : String → Option Bytes → Option Bytes} (h : g path (m.files path) = some contents) :
    ({ m with toDevice := m.setFile path contents } : Machine Opkg) = m.patch [path] g := by
  have hfiles : Function.update m.files path (some contents)
      = fun p => if p ∈ [path] then g p (m.files p) else m.files p := by
    funext p
    rcases eq_or_ne p path with rfl | hne
    · simp [h]
    · simp [hne]
  show ({ m with files := Function.update m.files path (some contents) } : Machine Opkg) = _
  rw [hfiles]
  rfl

/-- An image that is not there and one that is empty become the same. In a dry run the first becomes
the second, and the others stay. -/
structure Refills (o : Options) (g : String → Option Bytes → Option Bytes) : Prop where
  blank : ∀ p, g p none = g p (some [])
  dry : o.dryRun → ∀ p c, g p c = some (c.getD [])

theorem Refills.andThen {W W' : List String} {g g' : String → Option Bytes → Option Bytes}
    (h : Refills o g) (h' : Refills o g') : Refills o (andThen W W' g g') := by
  refine ⟨fun p => ?_, fun hd p c => ?_⟩ <;> unfold Updater.andThen
  · split_ifs
    · rw [h.blank]
    · exact h'.blank p
    · exact h.blank p
  · split_ifs
    · rw [h.dry hd, h'.dry hd, Option.getD_some]
    · exact h'.dry hd p c
    · exact h.dry hd p c

/-- The end of a part of a run that exits with `e`, or goes on if there is none. -/
def ends (e : Option Exit) (m : Machine Opkg) : EStateM.Result Exit (Machine Opkg) Unit :=
  match e with
  | none => .ok () m
  | some e => .error e m

theorem save_spec (path : String) (contents : Option Bytes) (m : Machine Opkg) :
    save path contents m = .ok () (m.patch (if contents.isSome then [path] else [])
      fun _ _ => some (contents.getD [])) := by
  cases contents with
  | none => rfl
  | some contents =>
    show EStateM.Result.ok () _ = _
    exact congrArg _ (setFile_eq_patch rfl)

/-- What the body of the loop does to any machine. -/
theorem fetch_spec (Opkg : Type) (o : Options) (i : Inputs) (s : Selection) (a : Asset) :
    ∃ W g e, Refills o g
    ∧ (∀ m : Machine Opkg, fetch o i s a m = ends e (m.patch W g))
    ∧ ∀ as, fetched o i s (a :: as) = W ++ if e = none then fetched o i s as else [] := by
  have hdry : Refills o fun _ c => some (c.getD []) := ⟨fun _ => rfl, fun _ _ _ => rfl⟩
  by_cases hurl : s.NoUrl a
  · refine ⟨[], _, some (fail _), hdry, fun m => bind_of_error (exitIf_pos hurl m), fun as => ?_⟩
    simp [fetched, hurl]
  by_cases hd : o.dryRun
  · refine ⟨[a.path s.version], _, none, hdry, fun m => ?_, fun as => ?_⟩
    · refine (bind_of_ok (exitIf_neg hurl m)).trans ?_
      rw [if_pos hd]
      exact congrArg (ends none) (setFile_eq_patch rfl)
    · simp [fetched, hurl, hd]
  have hreal : ∀ contents : Bytes, Refills o fun _ _ => some contents := fun _ =>
    ⟨fun _ => rfl, fun h => absurd h hd⟩
  refine ⟨if (i.curl (s.url (a.filename s.version))).contents.isSome then [a.path s.version] else [],
    _, if (i.curl (s.url (a.filename s.version))).ok then none
    else some (fail ("Error downloading " ++ a.filename s.version ++ ".")),
    hreal ((i.curl (s.url (a.filename s.version))).contents.getD []), fun m => ?_, fun as => ?_⟩
  · refine (bind_of_ok (exitIf_neg hurl m)).trans ?_
    rw [if_neg hd]
    refine (bind_of_ok (save_spec _ _ m)).trans ?_
    by_cases hok : (i.curl (s.url (a.filename s.version))).ok
    · rw [if_pos hok]
      exact exitIf_neg (not_not_intro hok) _
    · rw [if_neg hok]
      exact exitIf_pos hok _
  · by_cases hok : (i.curl (s.url (a.filename s.version))).ok <;> simp [fetched, hurl, hd, hok]

/-- What the loop does to any machine. -/
theorem forEach_fetch_spec (Opkg : Type) (o : Options) (i : Inputs) (s : Selection) :
    ∀ as, ∃ g e, Refills o g
    ∧ ∀ m : Machine Opkg, forEach (fetch o i s) as m = ends e (m.patch (fetched o i s as) g)
  | [] => ⟨fun _ c => some (c.getD []), none, ⟨fun _ => rfl, fun _ _ _ => rfl⟩, fun _ => rfl⟩
  | a :: as => by
    obtain ⟨W, g, e, hg, hrun, hfetched⟩ := fetch_spec Opkg o i s a
    rw [hfetched as]
    cases e with
    | some e =>
      refine ⟨g, some e, hg, fun m => ?_⟩
      rw [if_neg (by simp), List.append_nil]
      exact bind_of_error (hrun m)
    | none =>
      obtain ⟨g', e', hg', hrest⟩ := forEach_fetch_spec Opkg o i s as
      refine ⟨andThen W (fetched o i s as) g g', e', hg.andThen hg', fun m => ?_⟩
      refine (bind_of_ok (hrun m)).trans ?_
      rw [if_pos rfl]
      exact (hrest _).trans (congrArg (ends e') (patch_patch m W _ g g'))

/-! ## Runs -/

/-- Whatever a part of a run keeps that is not the loop over the images, a run keeps that does not
get there. -/
theorem run_cases {R : Machine Opkg → Machine Opkg → Prop} [Std.Refl R] [IsTrans _ R]
    (sys : System Opkg) (i : Inputs)
    (hinstall : ∀ o, readArgs none false false i.args = some o →
      ∀ version, Keeps R (install sys o i version))
    (hpackages : ∀ o, readArgs none false false i.args = some o → Keeps R (packages sys o i)) :
    (∃ o s, readArgs none false false i.args = some o ∧ i.images sys = fetched o i s Asset.all
        ∧ run sys i = do
          forEach (fetch o i s) Asset.all
          install sys o i s.version)
      ∨ i.images sys = [] ∧ Keeps R (run sys i) := by
  unfold run Inputs.images
  cases hargs : readArgs none false false i.args with
  | none => exact .inr ⟨rfl, keeps_throw _⟩
  | some o =>
    cases hselect : select sys i <;> cases hmode : o.mode <;>
      simp only [hmode, reduceCtorEq, if_true, if_false]
    case error.fota e => exact .inr ⟨trivial, keeps_throw e⟩
    case ok.fota s => exact .inl ⟨o, s, rfl, rfl, rfl⟩
    case error.ota | ok.ota =>
      exact .inr ⟨trivial, (keeps_exitIf _ _).bind fun _ => hinstall o hargs _⟩
    case error.packages | ok.packages => exact .inr ⟨trivial, hpackages o hargs⟩

theorem execute_device : (execute sys i d).device = (after (run sys i) ⟨d, []⟩).toDevice := rfl

/-- A run leaves the images that it does not fetch, and what it flashes it has fetched or found. -/
theorem after_run (sys : System Opkg) (i : Inputs) (m : Machine Opkg) :
    (∀ p ∉ i.images sys, (after (run sys i) m).files p = m.files p)
      ∧ ∀ w ∈ (after (run sys i) m).writes, w ∈ m.writes ∨ w.image ∈ i.images sys
        ∨ m.files w.image ≠ none := by
  rcases run_cases sys i (fun o _ => keeps_install sys o i) fun o _ => keeps_packages sys o i with
    ⟨o, s, -, himages, hrun⟩ | ⟨himages, hkeeps⟩
  · obtain ⟨g, e, -, hloop⟩ := forEach_fetch_spec Opkg o i s Asset.all
    rw [himages, hrun]
    have hsame : ∀ p ∉ fetched o i s Asset.all,
        (m.patch (fetched o i s Asset.all) g).files p = m.files p := fun p hp => if_neg hp
    cases e with
    | some e =>
      rw [after_bind_of_error (hloop m)]
      exact ⟨hsame, fun w hw => .inl hw⟩
    | none =>
      rw [after_bind_of_ok (hloop m)]
      obtain ⟨hfiles, hwrites⟩ := keeps_install sys o i s.version
        (m.patch (fetched o i s Asset.all) g)
      refine ⟨fun p hp => by rw [hfiles, hsame p hp], fun w hw => (hwrites w hw).imp_right ?_⟩
      intro hw
      by_cases hp : w.image ∈ fetched o i s Asset.all
      · exact .inl hp
      · rw [hsame _ hp] at hw
        exact .inr hw
  · obtain ⟨hfiles, hwrites⟩ := hkeeps m
    exact ⟨fun p _ => by rw [hfiles], fun w hw => (hwrites w hw).imp_right .inr⟩

/-- Images that are not there and images that are empty make no difference if they are fetched. -/
theorem execute_congr {files : String → Option Bytes}
    (h : ∀ p, files p = d.files p ∨ p ∈ i.images sys ∧ d.files p = none ∧ files p = some []) :
    execute sys i { d with files := files } = execute sys i d := by
  rcases run_cases sys i (fun o _ => keeps_install sys o i) fun o _ => keeps_packages sys o i with
    ⟨o, s, -, himages, hrun⟩ | ⟨himages, -⟩
  · obtain ⟨g, e, hg, hloop⟩ := forEach_fetch_spec Opkg o i s Asset.all
    have hfiles : (fun p => if p ∈ fetched o i s Asset.all then g p (files p) else files p)
        = fun p => if p ∈ fetched o i s Asset.all then g p (d.files p) else d.files p := by
      funext p
      rcases h p with hp | ⟨hmem, hnone, hblank⟩
      · rw [hp]
      · rw [himages] at hmem
        rw [if_pos hmem, if_pos hmem, hnone, hblank, hg.blank]
    have hpatch : (⟨{ d with files := files }, []⟩ : Machine Opkg).patch (fetched o i s Asset.all) g
        = (⟨d, []⟩ : Machine Opkg).patch (fetched o i s Asset.all) g := by
      unfold Machine.patch
      rw [← hfiles]
    have heq : run sys i ⟨{ d with files := files }, []⟩ = run sys i ⟨d, []⟩ := by
      rw [hrun]
      refine bind_congr_state ?_
      rw [hloop, hloop, hpatch]
    obtain ⟨hexit, hafter⟩ := eq_of_run_eq heq
    unfold execute
    rw [hexit, hafter]
  · have hfiles : files = d.files := by
      funext p
      refine (h p).resolve_right fun hp => ?_
      rw [himages] at hp
      exact List.not_mem_nil hp.1
    rw [hfiles]

section Dry

variable (sys o i) (hd : o.dryRun)

include hd

theorem keeps_flashPartition_dry (partition : Partition) (image : String) :
    Keeps Eq (flashPartition o partition image : Updates Opkg Unit) := by
  unfold flashPartition
  rw [if_pos hd]
  exact keeps_pure ()

theorem keeps_sysupgrade_dry (image : String) : Keeps Eq (sysupgrade sys o image) := by
  refine keeps_get.bind fun m => ?_
  have hlog : readLog sys (sysupgradeLog sys o image m) = pure () := by
    unfold sysupgradeLog readLog
    rw [if_pos hd]
    exact if_neg (by decide +kernel)
  rw [hlog]
  exact (keeps_pure ()).bind fun _ => keeps_get.bind fun _ => keeps_exitIf _ _

theorem keeps_install_dry (version : String) : Keeps Eq (install sys o i version) := by
  have hwrites : enableWrites sys o = pure () := if_pos hd
  unfold install
  rw [hwrites]
  exact (keeps_exitIf _ _).bind fun _ => keeps_get.bind fun _ =>
    (keeps_forEach (fun _ => keeps_exitIf _ _) _).bind fun _ => (keeps_pure ()).bind fun _ =>
    (keeps_flashPartition_dry o hd _ _).bind fun _ =>
    (keeps_flashPartition_dry o hd _ _).bind fun _ =>
    (keeps_flashPartition_dry o hd _ _).bind fun _ => keeps_sysupgrade_dry sys o hd _

theorem keeps_packages_dry : Keeps Eq (packages sys o i) := by
  have hadd : addRepository sys o = pure () := if_pos hd
  have hupdate : opkgUpdate sys o = pure () := if_pos hd
  have hinstall : installPackage sys o = fun _ => pure () := funext fun _ => if_pos hd
  unfold packages
  rw [hadd, hupdate, hinstall]
  exact (keeps_exitIf _ _).bind fun _ => (keeps_exitIf _ _).bind fun _ =>
    (keeps_exitIf _ _).bind fun _ => (keeps_exitIf _ _).bind fun _ =>
    (keeps_ofExcept _).bind fun _ => (keeps_exitIf _ _).bind fun _ => keeps_get.bind fun _ =>
    (keeps_exitIf _ _).bind fun _ => (keeps_exitIf _ _).bind fun _ =>
    (keeps_pure ()).bind fun _ => (keeps_pure ()).bind fun _ =>
    keeps_forEach (fun _ => keeps_pure ()) _

end Dry

/-- A dry run creates the images that are not there, and does nothing else. -/
theorem execute_dry (sys : System Opkg) (hdry : "--dry-run" ∈ i.args) (d : Device Opkg) :
    (execute sys i d).writes = [] ∧ (execute sys i d).device = { d with
      files := fun p => if p ∈ i.images sys then some ((d.files p).getD []) else d.files p } := by
  have hd : ∀ o, readArgs none false false i.args = some o → o.dryRun := fun o ho =>
    dryRun_of_mem ho (.inr hdry)
  have hafter : after (run sys i) ⟨d, []⟩
      = (⟨d, []⟩ : Machine Opkg).patch (i.images sys) fun _ c => some (c.getD []) := by
    rcases run_cases sys i (fun o ho => keeps_install_dry sys o i (hd o ho))
        fun o ho => keeps_packages_dry sys o i (hd o ho) with
      ⟨o, s, ho, himages, hrun⟩ | ⟨himages, hkeeps⟩
    · obtain ⟨g, e, hg, hloop⟩ := forEach_fetch_spec Opkg o i s Asset.all
      have hgc : g = fun _ c => some (c.getD []) := funext fun p => funext (hg.dry (hd o ho) p)
      rw [himages, hrun, ← hgc]
      cases e with
      | some e => exact after_bind_of_error (hloop _)
      | none =>
        rw [after_bind_of_ok (hloop _)]
        exact (keeps_install_dry sys o i (hd o ho) s.version _).symm
    · rw [himages, patch_nil]
      exact (hkeeps _).symm
  unfold execute
  rw [hafter]
  exact ⟨rfl, rfl⟩

/-- An image that the dry run has created and the later run does not write to is left over. -/
theorem not_invisible_of_left {dry later : Inputs} (hdry : "--dry-run" ∈ dry.args) {p : String}
    (hp : p ∈ dry.images sys) (hnone : d.files p = none) (hnot : p ∉ later.images sys) :
    ¬ Invisible sys d dry later := by
  intro h
  have hwith := (after_run sys later ⟨(execute sys dry d).device, []⟩).1 p hnot
  have hwithout := (after_run sys later ⟨d, []⟩).1 p hnot
  have houtcome := congrArg (fun out => out.device.files p) h.outcome
  have heq : (execute sys dry d).device.files p = d.files p :=
    hwith.symm.trans (houtcome.trans hwithout)
  rw [(execute_dry sys hdry d).2] at heq
  simp [hp, hnone] at heq

/-- A dry run is invisible to a later run exactly if the later run writes to every image that the
dry run has created, before it looks for them. -/
theorem invisible_iff (sys : System Opkg) (d : Device Opkg) (dry later : Inputs)
    (hdry : "--dry-run" ∈ dry.args) : Invisible sys d dry later
      ↔ ∀ p ∈ dry.images sys, d.files p = none → p ∈ later.images sys := by
  constructor
  · intro h p hp hnone
    by_contra hnot
    exact not_invisible_of_left hdry hp hnone hnot h
  · intro h
    have hsame : execute sys later (execute sys dry d).device = execute sys later d := by
      rw [(execute_dry sys hdry d).2]
      refine execute_congr fun p => ?_
      by_cases hp : p ∈ dry.images sys
      · cases hnone : d.files p with
        | none => exact .inr ⟨h p hp hnone, rfl, by simp [hp]⟩
        | some contents => exact .inl (by simp [hp])
      · exact .inl (if_neg hp)
    refine ⟨hsame, fun w hw => ?_⟩
    rw [hsame] at hw
    exact ((after_run sys later ⟨d, []⟩).2 w hw).resolve_left List.not_mem_nil

theorem Asset.path_eq (version : String) (a : Asset) : a.path version
    = "/tmp/" ++ ("immortalwrt-" ++ version ++ "-mediatek-filogic-bananapi_bpi-r3-mini-")
      ++ a.suffix := by
  unfold Asset.path filename
  exact String.append_assoc.symm

/-- The last letters of a path tell the image. -/
theorem Asset.path_end (version : String) (a : Asset) :
    (a.path version).toList.reverse.take 5 = a.suffix.toList.reverse.take 5 := by
  rw [Asset.path_eq, String.toList_append, List.reverse_append]
  refine List.take_append_of_le_length ?_
  cases a <;> decide +kernel

theorem Asset.path_inj {version version' : String} {a a' : Asset}
    (h : a.path version = a'.path version') : version = version' ∧ a = a' := by
  have hend := congrArg (fun p => p.toList.reverse.take 5) h
  simp only [Asset.path_end] at hend
  have ha : a = a' := by
    revert hend
    cases a <;> cases a' <;> decide +kernel
  subst ha
  rw [Asset.path_eq, Asset.path_eq, String.append_left_inj, String.append_right_inj,
    String.append_left_inj, String.append_right_inj] at h
  exact ⟨h, rfl⟩

theorem fetched_cons_subset (a : Asset) (as : List Asset) :
    fetched o i s (a :: as) ⊆ a.path s.version :: fetched o i s as := by
  intro p hp
  rw [fetched] at hp
  simp only at hp
  split_ifs at hp <;> simp at hp ⊢ <;> tauto

theorem mem_fetched {p : String} : ∀ {as : List Asset}, p ∈ fetched o i s as →
    ∃ a, p = Asset.path s.version a
  | a :: as, h => by
    rcases List.mem_cons.1 (fetched_cons_subset a as h) with rfl | h
    · exact ⟨a, rfl⟩
    · exact mem_fetched h

theorem select_of_mem_images {p : String} (h : p ∈ i.images sys) :
    ∃ s, select sys i = .ok s ∧ ∃ a, p = Asset.path s.version a := by
  unfold Inputs.images at h
  split at h
  · rename_i s _ hselect
    split_ifs at h
    · exact ⟨s, hselect, mem_fetched h⟩
    · exact absurd h List.not_mem_nil
  · exact absurd h List.not_mem_nil

/-- Two runs that write to the same image have selected the same version. -/
theorem version_of_mem_images {i' : Inputs} {p : String} (h : p ∈ i.images sys)
    (h' : p ∈ i'.images sys) : ∃ s s', select sys i = .ok s ∧ select sys i' = .ok s'
      ∧ s.version = s'.version := by
  obtain ⟨s, hs, a, rfl⟩ := select_of_mem_images h
  obtain ⟨s', hs', a', hpath⟩ := select_of_mem_images h'
  exact ⟨s, s', hs, hs', (Asset.path_inj hpath).1⟩

/-! ## What is flashed -/

theorem length_zeros : zeros.length = 4 * 1024 * 1024 := List.length_replicate

theorem write_partitions (partition : Partition) (image : String) (contents : Bytes) :
    (m.write partition image contents).partitions partition
      = (Bytes.overlay contents (m.partitions partition)).take (m.partitions partition).length :=
  Function.update_self _ _ _

theorem write_partitions_ne {partition q : Partition} (h : q ≠ partition) (image : String)
    (contents : Bytes) : (m.write partition image contents).partitions q = m.partitions q :=
  Function.update_of_ne h _ _

@[simp]
theorem length_write (partition q : Partition) (image : String) (contents : Bytes) :
    ((m.write partition image contents).partitions q).length = (m.partitions q).length := by
  rcases eq_or_ne q partition with rfl | hne
  · rw [write_partitions]
    simp only [Bytes.overlay, List.length_take, List.length_append, List.length_drop]
    omega
  · rw [write_partitions_ne hne]

/-- The partition that is erased and then written to. -/
def Machine.flash (m : Machine Opkg) (partition : Partition) (image : String) (contents : Bytes) :
    Machine Opkg :=
  (m.write partition image zeros).write partition image contents

/-- What a partition holds that held `old`. -/
def flashed (contents old : Bytes) : Bytes :=
  (Bytes.overlay contents ((Bytes.overlay zeros old).take old.length)).take old.length

theorem flash_partitions (partition : Partition) (image : String) (contents : Bytes) :
    (m.flash partition image contents).partitions partition
      = flashed contents (m.partitions partition) := by
  unfold Machine.flash flashed
  rw [write_partitions, length_write, write_partitions]

theorem flash_partitions_ne {partition q : Partition} (h : q ≠ partition) (image : String)
    (contents : Bytes) : (m.flash partition image contents).partitions q = m.partitions q := by
  unfold Machine.flash
  rw [write_partitions_ne h, write_partitions_ne h]

@[simp]
theorem length_flash (partition q : Partition) (image : String) (contents : Bytes) :
    ((m.flash partition image contents).partitions q).length = (m.partitions q).length := by
  unfold Machine.flash
  rw [length_write, length_write]

theorem flashPartition_of_fits (hd : ¬ o.dryRun) (hro : ¬ m.forceRo) {partition : Partition}
    {image : String} {contents : Bytes} (hfile : m.files image = some contents)
    (hzeros : zeros.length ≤ (m.partitions partition).length)
    (hfits : contents.length ≤ (m.partitions partition).length) :
    flashPartition o partition image m = .ok () (m.flash partition image contents) := by
  unfold flashPartition
  rw [if_neg hd]
  refine (bind_of_ok (dd_of_writable fun h => hro h.2)).trans ?_
  refine (bind_of_ok (exitIf_neg (by simpa using hzeros) _)).trans ?_
  have hdd : ddImage partition image (m.write partition image zeros)
      = .ok true (m.flash partition image contents) := by
    have hget : (get : Updates Opkg (Machine Opkg)) (m.write partition image zeros)
        = .ok (m.write partition image zeros) (m.write partition image zeros) := rfl
    refine (bind_of_ok hget).trans ?_
    rw [show (m.write partition image zeros).files image = some contents from hfile]
    refine (dd_of_writable (m := m.write partition image zeros) fun h => hro h.2).trans ?_
    rw [length_write, decide_eq_true hfits]
    rfl
  refine (bind_of_ok hdd).trans ?_
  exact exitIf_neg (by simp) _

/-- The image that is flashed to the partition. -/
def Partition.asset : Partition → Asset
  | .boot0 => .emmcPreloader
  | .p3 => .emmcBl31Uboot
  | .p4 => .initramfsRecovery

/-- The images are there, the partitions can be written to and are large enough. -/
structure Ready (version : String) (images : Asset → Bytes) (m : Machine Opkg) : Prop where
  writable : ¬ m.forceRo
  files : ∀ a, m.files (Asset.path version a) = some (images a)
  zeros : ∀ q, Updater.zeros.length ≤ (m.partitions q).length
  fits : ∀ a q, (images a).length ≤ (m.partitions q).length

namespace Ready

variable {version : String} {images : Asset → Bytes}

theorem flash (h : Ready version images m) (q : Partition) (image : String) (contents : Bytes) :
    Ready version images (m.flash q image contents) where
  writable := h.writable
  files := h.files
  zeros r := by
    rw [length_flash]
    exact h.zeros r
  fits a r := by
    rw [length_flash]
    exact h.fits a r

theorem flashPartition (h : Ready version images m) (hd : ¬ o.dryRun) (q : Partition) :
    flashPartition o q (q.asset.path version) m
      = .ok () (m.flash q (q.asset.path version) (images q.asset)) :=
  flashPartition_of_fits hd h.writable (h.files q.asset) (h.zeros q) (h.fits q.asset q)

end Ready

/-- The images that are there are flashed if they fit, whatever they hold. -/
theorem install_of_ready (hd : ¬ o.dryRun) (habort : ¬ i.abort) (hro : sys.forceRoWritable)
    {version : String} (images : Asset → Bytes)
    (h : Ready version images { m with forceRo := false }) (q : Partition) :
    (after (install sys o i version) m).partitions q
      = flashed (images q.asset) (m.partitions q) := by
  have hwrites : enableWrites sys o m = .ok () { m with forceRo := false } := by
    unfold enableWrites
    rw [if_neg hd]
    exact bind_of_ok (exitIf_neg (not_not_intro hro) m)
  have hfiles : ∀ a, m.files (Asset.path version a) = some (images a) := h.files
  -- one partition after the other, each from what the last one left
  have h1 := h.flash .boot0 (Partition.boot0.asset.path version) (images Partition.boot0.asset)
  have h2 := h1.flash .p3 (Partition.p3.asset.path version) (images Partition.p3.asset)
  have hboot0 : flashPartition o .boot0 (Asset.path version .emmcPreloader) _ = .ok () _ :=
    h.flashPartition hd .boot0
  have hp3 : flashPartition o .p3 (Asset.path version .emmcBl31Uboot) _ = .ok () _ :=
    h1.flashPartition hd .p3
  have hp4 : flashPartition o .p4 (Asset.path version .initramfsRecovery) _ = .ok () _ :=
    h2.flashPartition hd .p4
  have hrest := keeps_sysupgrade (R := fun m m' : Machine Opkg => m'.partitions = m.partitions)
    (fun _ _ => rfl) sys o (Asset.path version .squashfsSysupgrade)
  unfold install
  rw [after_bind_of_ok (exitIf_neg habort m), after_get_bind,
    after_bind_of_ok (check_of_files fun a => by simp [hfiles a]), after_bind_of_ok hwrites,
    after_bind_of_ok hboot0, after_bind_of_ok hp3, after_bind_of_ok hp4, hrest]
  cases q with
  | boot0 =>
    rw [flash_partitions_ne (by simp), flash_partitions_ne (by simp), flash_partitions]
  | p3 =>
    rw [flash_partitions_ne (by simp), flash_partitions, flash_partitions_ne (by simp)]
  | p4 =>
    rw [flash_partitions, flash_partitions_ne (by simp), flash_partitions_ne (by simp)]

/-- A system without packages, whose `sysupgrade` refuses an empty image. -/
def box : System Unit where
  curl := true
  jq := true
  opkg := true
  distribRelease := "24.10.0"
  forceRoWritable := true
  arith word := if word.toList.all Char.isDigit then
    some (word.toList.foldl (fun n c => 10 * n + (c.toNat - 48)) 0 : ℕ) else none
  sortV required _ := required
  listInstalled _ := []
  opkgUpdate _ _ := ()
  opkgInstall _ _ := ()
  sysupgradeTest _ _ := []
  sysupgrade _ image d :=
    if d.files image = some [] then ["Image check failed."]
    else ["Commencing upgrade. Closing all shell sessions."]

/-- No image is there. -/
def bare : Device Unit where
  partitions _ := List.replicate (4 * 1024 * 1024) 255
  files _ := none
  forceRo := true
  compatVersion := none
  customfeeds := []
  opkg := ()

def boxVersion : String := "24.10.0"

def release : Release where
  tagName := some "v1"
  assets := Asset.all.map fun a => ⟨a.filename boxVersion, some a.suffix⟩

def fota : Inputs where
  args := ["fota"]
  releases := [release]
  packageIndex := none
  curl _ := ⟨some [1, 2, 3], true⟩
  selection := ""
  firmwareVersion := ""
  proceed := ""
  abort := false

def dryFota : Inputs := { fota with args := ["--dry-run", "fota"] }

def ota : Inputs := { fota with args := ["ota"], releases := [], firmwareVersion := boxVersion }

theorem images_fota : fota.images box = Asset.all.map (Asset.path boxVersion) := by
  decide +kernel

theorem images_dryFota : dryFota.images box = Asset.all.map (Asset.path boxVersion) := by
  decide +kernel

theorem invisible_toFota : Invisible box bare dryFota fota :=
  (invisible_iff box bare dryFota fota (by simp [dryFota])).2 fun p hp _ => by
    rw [images_fota, ← images_dryFota]
    exact hp

theorem flashed_nil {old : Bytes} (h : old.length = zeros.length) : flashed [] old = zeros := by
  unfold flashed Bytes.overlay
  rw [List.drop_eq_nil_of_le (Nat.le_of_eq h), List.append_nil, h]
  simp

/-- Without the dry run nothing is written; with it the partitions are erased. -/
theorem dryRun_erases : ¬ Invisible box bare dryFota ota
    ∧ (execute box ota bare).writes = []
    ∧ ∀ q, (execute box ota (execute box dryFota bare).device).device.partitions q = zeros := by
  have hdry : "--dry-run" ∈ dryFota.args := by simp [dryFota]
  have hcreated : ∀ a, Asset.path boxVersion a ∈ dryFota.images box := by
    intro a
    rw [images_dryFota]
    exact List.mem_map_of_mem (Asset.mem_all a)
  have hota : ota.images box = [] := by decide +kernel
  refine ⟨?_, ?_, fun q => ?_⟩
  · refine not_invisible_of_left hdry (hcreated .emmcPreloader) rfl ?_
    rw [hota]
    exact List.not_mem_nil
  · refine List.eq_nil_iff_forall_not_mem.2 fun w hw => ?_
    rcases (after_run box ota ⟨bare, []⟩).2 w hw with hw | hw | hw
    · exact List.not_mem_nil hw
    · rw [hota] at hw
      exact List.not_mem_nil hw
    · exact hw rfl
  · have hargs : readArgs none false false ota.args = some ⟨.ota, false, false⟩ := by decide +kernel
    have hlength : ∀ q, (bare.partitions q).length = zeros.length := fun _ =>
      List.length_replicate.trans length_zeros.symm
    have hrun : ∀ m, after (run box ota) m
        = after (install box ⟨.ota, false, false⟩ ota boxVersion) m := by
      intro m
      unfold run
      rw [hargs]
      exact after_bind_of_ok (exitIf_neg (by decide +kernel) m)
    rw [execute_device, hrun, (execute_dry box hdry bare).2]
    rw [install_of_ready (by simp) (by simp [ota, fota]) rfl fun _ => []]
    · exact flashed_nil (hlength q)
    · exact ⟨by simp, fun a => if_pos (hcreated a), fun q => Nat.le_of_eq (hlength q).symm,
        fun _ _ => Nat.zero_le _⟩

end Updater

end BananaWrt
