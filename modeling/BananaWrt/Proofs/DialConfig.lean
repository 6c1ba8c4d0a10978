import BananaWrt.DialConfig
import BananaWrt.Proofs.ModemRegistry

/-!
# One dial a network

While a reload goes on, each record names a section that has its network and either is enabled or is
still to be handled (`Named`). A section that is handled keeps this under a condition on what its
name and its network find in the run file, and is fair exactly then (`fair_iff`). So a run whose
steps all meet the condition leaves one dial a network after each reload (`oneDial_of_keepsDial`).
-/

namespace BananaWrt

namespace Dial

open Registry (agree_self)

variable {c : Cfg} {s : St} {t : DialSection}

theorem Name.finds_of_eq {n : Name} {r : Rec} (h : r.network = n) : n.Finds r := by
  subst h
  exact Regex.found_lit_of_infix agree_self ⟨[], _, rfl⟩

theorem Id.finds_self (r : Rec) : r.id.Finds r :=
  Regex.found_lit_of_infix agree_self ⟨r.network.chars ++ [','], [], by simp [Rec.line]⟩

/-- Each record is that of a section that is enabled or is still to be handled. -/
def Named (s : St) (todo : List DialSection) : Prop :=
  ∀ r ∈ s.file, ∃ t ∈ s.sections, t.id = r.id ∧ t.network = r.network ∧ (t.enable ∨ t ∈ todo)

structure Inv (c : Cfg) (s : St) : Prop where
  wellFormed : WellFormed c s.sections
  unique : (s.file.map Rec.network).Nodup
  todo : ∀ t ∈ s.todo, t ∈ s.sections
  todoNodup : (s.todo.map DialSection.id).Nodup
  named : s.todo ≠ [] → Named s s.todo

theorem Inv.start : Inv c .start where
  wellFormed := by simp [WellFormed, St.start]
  unique := by simp [St.start]
  todo := by simp [St.start]
  todoNodup := by simp [St.start]
  named h := absurd rfl h

theorem Inv.eq_of_id (h : Inv c s) {t u : DialSection} (ht : t ∈ s.sections) (hu : u ∈ s.sections)
    (hid : u.id = t.id) : u = t :=
  List.inj_on_of_nodup_map h.wellFormed.1 hu ht hid

/-- The records of a network are one at most. -/
theorem Inv.filter_network (h : Inv c s) {r : Rec} (hr : r ∈ s.file) :
    s.file.filter (fun r' => r'.network = r.network) = [r] :=
  List.filter_key h.unique hr

theorem Inv.eq_of_network (h : Inv c s) {r r' : Rec} (hr : r ∈ s.file) (hr' : r' ∈ s.file)
    (hn : r'.network = r.network) : r' = r :=
  List.inj_on_of_nodup_map h.unique hr' hr hn

/-- The network of a section belongs to a modem whose driver is known. -/
theorem Inv.mode (h : Inv c s) (ht : t ∈ s.sections) (modemNo : Option ℕ) :
    ∃ no, c.getModemNo t.network modemNo = some no ∧ c.getMode no ≠ .unknown := by
  obtain ⟨no, hno, hmode⟩ := h.wellFormed.2 t ht
  refine ⟨no, ?_, hmode⟩
  unfold Cfg.getModemNo at hno ⊢
  rw [Option.or_none] at hno
  rw [show c.modems.findIdx? (fun m => m.network = some t.network) = some no from hno,
    Option.some_or]

theorem stopDial_of_not_found (h : ¬ ∃ r ∈ s.file, t.network.Finds r) : stopDial c s t = s := by
  unfold stopDial
  rw [if_neg h]

/-- The records of the section are removed, and the dial of its network is stopped. -/
theorem stopDial_of_found (h : Inv c s) (ht : t ∈ s.sections)
    (hf : ∃ r ∈ s.file, t.network.Finds r) : ∃ no mode, stopDial c s t = { s with
      file := s.file.filter fun r => ¬ t.id.Finds r
      modemNo := some no
      stops := s.stops ++ [(mode, t.network)] } := by
  obtain ⟨no, hno, hmode⟩ := h.mode ht s.modemNo
  refine ⟨no, c.getMode no, ?_⟩
  unfold stopDial
  rw [if_pos hf]
  simp only [hno, if_neg hmode]

/-- What an enabled section finds decides: it is recorded, refused, or dials again. -/
theorem dial_of_enabled (h : Inv c s) (ht : t ∈ s.sections) (hen : t.enable) :
    ∃ no mode, dial c s t =
      let configId := (s.file.filter fun r => t.network.Finds r).map Rec.id
      if configId = [] then
        { s with
          modemNo := some no
          file := s.file ++ [⟨t.network, t.id⟩]
          dials := s.dials ++ [(mode, ⟨t.network, t.id⟩)] }
      else if configId ≠ [t.id] then { s with modemNo := some no }.disable t.id
      else { s with modemNo := some no, dials := s.dials ++ [(mode, ⟨t.network, t.id⟩)] } := by
  obtain ⟨no, hno, hmode⟩ := h.mode ht s.modemNo
  refine ⟨no, c.getMode no, ?_⟩
  unfold dial
  rw [if_neg (not_not_intro hen)]
  simp only [hno, if_neg hmode]

theorem dial_of_disabled (hen : ¬ t.enable) : dial c s t = stopDial c s t := by
  unfold dial
  rw [if_pos hen]

theorem configId_eq_nil_iff :
    (s.file.filter fun r => t.network.Finds r).map Rec.id = []
      ↔ ∀ r ∈ s.file, ¬ t.network.Finds r := by
  rw [List.map_eq_nil_iff, List.filter_eq_nil_iff]
  simp only [decide_eq_true_eq]

/-- The section finds its own record and no other. -/
theorem configId_eq_self_iff (h : Inv c s) {todo : List DialSection} (hn : Named s todo)
    (ht : t ∈ s.sections) (hne : ∃ r ∈ s.file, t.network.Finds r) :
    (s.file.filter fun r => t.network.Finds r).map Rec.id = [t.id]
      ↔ ∀ r ∈ s.file, t.network.Finds r → r.id = t.id := by
  constructor
  · intro hids r hr hf
    have hmem : r.id ∈ (s.file.filter fun r => t.network.Finds r).map Rec.id :=
      List.mem_map_of_mem (List.mem_filter.2 ⟨hr, by simpa using hf⟩)
    rw [hids] at hmem
    exact List.mem_singleton.1 hmem
  · intro hall
    have hnet : ∀ r ∈ s.file, t.network.Finds r → r.network = t.network := by
      intro r hr hf
      obtain ⟨u, hu, hid, hnet, -⟩ := hn r hr
      rw [← hnet, h.eq_of_id ht hu (hid.trans (hall r hr hf))]
    obtain ⟨r, hr, hf⟩ := hne
    -- what is found are the records of exactly this network, and that is one
    have hfilter : s.file.filter (fun r' => t.network.Finds r') = [r] := by
      rw [← h.filter_network hr]
      refine List.filter_congr fun r' hr' => ?_
      rw [decide_eq_decide, hnet r hr hf]
      exact ⟨hnet r' hr', Name.finds_of_eq⟩
    rw [hfilter, List.map_singleton, hall r hr hf]

theorem St.mem_disable {i : Id} {u : DialSection} (hu : u ∈ s.sections) (hne : u.id ≠ i) :
    u ∈ (s.disable i).sections :=
  List.mem_map.2 ⟨u, hu, if_neg hne⟩

theorem WellFormed.disable (h : WellFormed c s.sections) (i : Id) :
    WellFormed c (s.disable i).sections := by
  have hid : (s.disable i).sections.map DialSection.id = s.sections.map DialSection.id := by
    unfold St.disable
    rw [List.map_map]
    refine List.map_congr_left fun u _ => ?_
    show (if u.id = i then { u with enable := false } else u).id = u.id
    split_ifs <;> rfl
  refine ⟨by rw [hid]; exact h.1, fun u hu => ?_⟩
  obtain ⟨u', hu', rfl⟩ := List.mem_map.1 hu
  have hnet : (if u'.id = i then { u' with enable := false } else u').network = u'.network := by
    split_ifs <;> rfl
  rw [hnet]
  exact h.2 u' hu'

section Outcomes

variable {rest : List DialSection} (h : Inv c s) (hn : Named s (t :: rest)) (ht : t ∈ s.sections)

include h hn ht in
/-- What the section may do to the records of the others and to its own. -/
theorem Named.tail {s' : St} (hfile : ∀ r ∈ s'.file, r ∈ s.file)
    (hsec : ∀ u ∈ s.sections, u.id ≠ t.id → u ∈ s'.sections)
    (hown : ∀ r ∈ s'.file, r.id = t.id → t ∈ s'.sections ∧ t.enable) : Named s' rest := by
  intro r hr
  obtain ⟨u, hu, hid, hnet, hor⟩ := hn r (hfile r hr)
  rcases eq_or_ne u.id t.id with heq | hne
  · obtain rfl := h.eq_of_id ht hu heq
    obtain ⟨hmem, hen⟩ := hown r hr hid.symm
    exact ⟨u, hmem, hid, hnet, .inl hen⟩
  · refine ⟨u, hsec u hu hne, hid, hnet, hor.imp_right fun hmem => ?_⟩
    exact (List.mem_cons.1 hmem).resolve_left fun he => hne (he ▸ rfl)

include h hn ht in
/-- A record of the section has its network. -/
theorem network_of_id {r : Rec} (hr : r ∈ s.file) (hid : r.id = t.id) : r.network = t.network := by
  obtain ⟨u, hu, huid, hnet, -⟩ := hn r hr
  rw [← hnet, h.eq_of_id ht hu (huid.trans hid)]

include h hn ht in
/-- Not enabled, and its network is not found. -/
theorem idle_of_not_found (hf : ¬ ∃ r ∈ s.file, t.network.Finds r) :
    Named s rest ∧ Fair s s t := by
  have hnone : ∀ r ∈ s.file, r.id ≠ t.id := fun r hr hid =>
    hf ⟨r, hr, Name.finds_of_eq (network_of_id h hn ht hr hid)⟩
  refine ⟨hn.tail h ht (fun _ hr => hr) (fun _ hu _ => hu) fun r hr hid => absurd hid (hnone r hr),
    fun hen hu => ?_, fun _ _ hr _ => hr, fun _ => rfl⟩
  obtain ⟨u, hu, hid, hnot⟩ := hu
  exact absurd (h.eq_of_id ht hu hid ▸ hen) hnot

include h hn ht in
/-- Not enabled, but recorded: its records go, and its dial is stopped. -/
theorem stopped_of_recorded (hen : ¬ t.enable) (hrec : ⟨t.network, t.id⟩ ∈ s.file) {s' : St}
    (hs : s'.sections = s.sections) (hf : s'.file = s.file.filter fun r => ¬ t.id.Finds r) :
    Named s' rest ∧ Fair s s' t := by
  refine ⟨hn.tail h ht (fun r hr => ?_) (fun u hu _ => hs ▸ hu) fun r hr hid => ?_,
    fun hen' => absurd hen' hen, fun hnot => absurd hrec hnot, fun hnot => absurd hrec hnot⟩
  · rw [hf] at hr
    exact (List.mem_filter.1 hr).1
  · rw [hf] at hr
    have hnot := (List.mem_filter.1 hr).2
    rw [← hid] at hnot
    simp [Id.finds_self r] at hnot

include h in
theorem unique_append (hf : ∀ r ∈ s.file, ¬ t.network.Finds r) :
    ((s.file ++ [(⟨t.network, t.id⟩ : Rec)]).map Rec.network).Nodup := by
  rw [List.map_append, List.map_singleton]
  refine List.nodup_append.2 ⟨h.unique, List.nodup_singleton _, fun n hn m hm => ?_⟩
  obtain ⟨r, hr, rfl⟩ := List.mem_map.1 hn
  rw [List.mem_singleton.1 hm]
  exact fun he => hf r hr (Name.finds_of_eq he)

include h hn ht in
/-- Enabled, and nothing is found: it is recorded. -/
theorem recorded_of_not_found (hen : t.enable) {s' : St} (hs : s'.sections = s.sections)
    (hfile : s'.file = s.file ++ [⟨t.network, t.id⟩]) (hstops : s'.stops = s.stops) :
    Named s' rest ∧ Fair s s' t := by
  refine ⟨fun r hr => ?_, fun _ hu => ?_, fun _ r hr _ => ?_, fun _ => hstops⟩
  · rw [hs]
    rw [hfile] at hr
    rcases List.mem_append.1 hr with hr | hr
    · obtain ⟨u, hu, hid, hnet, hor⟩ := hn r hr
      refine ⟨u, hu, hid, hnet, ?_⟩
      rcases hor with hen' | hmem
      · exact .inl hen'
      · rcases List.mem_cons.1 hmem with rfl | hmem
        · exact .inl hen
        · exact .inr hmem
    · rw [List.mem_singleton.1 hr]
      exact ⟨t, ht, rfl, rfl, .inl hen⟩
  · obtain ⟨u, hu, hid, hnot⟩ := hu
    rw [hs] at hu
    exact absurd (h.eq_of_id ht hu hid ▸ hen) hnot
  · rw [hfile]
    exact List.mem_append_left _ hr

include h hn ht in
/-- Enabled, and it finds its own record only: it dials again. -/
theorem dials_of_own (hen : t.enable) {s' : St} (hs : s'.sections = s.sections)
    (hfile : s'.file = s.file) (hstops : s'.stops = s.stops) : Named s' rest ∧ Fair s s' t := by
  refine ⟨hn.tail h ht (fun r hr => hfile ▸ hr) (fun u hu _ => hs ▸ hu) fun _ _ _ => ⟨hs ▸ ht, hen⟩,
    fun _ hu => ?_, fun _ r hr _ => hfile ▸ hr, fun _ => hstops⟩
  obtain ⟨u, hu, hid, hnot⟩ := hu
  rw [hs] at hu
  exact absurd (h.eq_of_id ht hu hid ▸ hen) hnot

include h hn ht in
/-- Enabled, but another section is recorded for its network: it is refused. -/
theorem refused_of_other (hother : ∃ r ∈ s.file, r.network = t.network ∧ r.id ≠ t.id) {s' : St}
    (hs : s'.sections = (s.disable t.id).sections) (hfile : s'.file = s.file)
    (hstops : s'.stops = s.stops) : Named s' rest ∧ Fair s s' t := by
  obtain ⟨r', hr', hnet', hid'⟩ := hother
  refine ⟨hn.tail h ht (fun r hr => hfile ▸ hr) (fun u hu hne => hs ▸ St.mem_disable hu hne) ?_,
    fun _ _ => ⟨r', hr', hnet', hid'⟩, fun _ r hr _ => hfile ▸ hr, fun _ => hstops⟩
  intro r hr hid
  rw [hfile] at hr
  have hnet := network_of_id h hn ht hr hid
  obtain rfl := h.eq_of_network hr hr' (hnet'.trans hnet.symm)
  exact absurd hid hid'

end Outcomes

theorem Inv.handled (h : Inv c s) {rest : List DialSection} (htodo : s.todo = t :: rest) {s' : St}
    (hs : s'.sections = s.sections ∨ s'.sections = (s.disable t.id).sections)
    (hunique : (s'.file.map Rec.network).Nodup) (hk : Named s' rest ∧ Fair s s' t) :
    Named s' rest ∧ Fair s s' t ∧ Inv c { s' with todo := rest } := by
  have hin := h.todo
  rw [htodo] at hin
  obtain ⟨ht, hrest⟩ := List.forall_mem_cons.1 hin
  have hnodup := h.todoNodup
  rw [htodo, List.map_cons, List.nodup_cons] at hnodup
  refine ⟨hk.1, hk.2, ?_, hunique, fun u hu => ?_, hnodup.2, fun _ => hk.1⟩
  · show WellFormed c s'.sections
    rcases hs with hs | hs <;> rw [hs]
    · exact h.wellFormed
    · exact h.wellFormed.disable t.id
  · show u ∈ s'.sections
    rcases hs with hs | hs <;> rw [hs]
    · exact hrest u hu
    · exact St.mem_disable (hrest u hu) fun he => hnodup.1 (he ▸ List.mem_map_of_mem hu)

/-- The section is handled, and it is fair. -/
theorem Inv.dial (h : Inv c s) {rest : List DialSection} (htodo : s.todo = t :: rest)
    (hok : KeepsDial s .next) :
    Named (dial c s t) rest ∧ Fair s (dial c s t) t ∧ Inv c { dial c s t with todo := rest } := by
  have hn : Named s (t :: rest) := htodo ▸ h.named (by simp [htodo])
  have ht : t ∈ s.sections := h.todo t (by simp [htodo])
  have hokt := hok t (by simp [htodo])
  by_cases hen : t.enable
  · rw [if_pos hen] at hokt
    obtain ⟨no, mode, hdial⟩ := dial_of_enabled h ht hen
    rw [hdial]
    simp only
    split_ifs with hnil hne
    · exact h.handled htodo (.inl rfl) (unique_append h (configId_eq_nil_iff.1 hnil))
        (recorded_of_not_found h hn ht hen rfl rfl rfl)
    · have hfound : ∃ r ∈ s.file, t.network.Finds r := by
        by_contra hnone
        push Not at hnone
        exact hnil (configId_eq_nil_iff.2 hnone)
      rw [Ne, configId_eq_self_iff h hn ht hfound] at hne
      push Not at hne
      exact h.handled htodo (.inr rfl) h.unique (refused_of_other h hn ht (hokt hne) rfl rfl rfl)
    · exact h.handled htodo (.inl rfl) h.unique (dials_of_own h hn ht hen rfl rfl rfl)
  · rw [if_neg hen] at hokt
    rw [dial_of_disabled hen]
    by_cases hf : ∃ r ∈ s.file, t.network.Finds r
    · obtain ⟨no, mode, hstop⟩ := stopDial_of_found h ht hf
      rw [hstop]
      exact h.handled htodo (.inl rfl) (h.unique.sublist (List.filter_sublist.map _))
        (stopped_of_recorded h hn ht hen (hokt hf) rfl rfl)
    · rw [stopDial_of_not_found hf]
      exact h.handled htodo (.inl rfl) h.unique (idle_of_not_found h hn ht hf)

/-- The condition is exact: a section that does not meet it is not fair. -/
theorem fair_iff (h : Inv c s) {rest : List DialSection} (htodo : s.todo = t :: rest) :
    Fair s (dial c s t) t ↔ KeepsDial s .next := by
  refine ⟨fun hfair => ?_, fun hok => (h.dial htodo hok).2.1⟩
  have ht : t ∈ s.sections := h.todo t (by simp [htodo])
  intro u hu
  rw [htodo] at hu
  cases hu
  split_ifs with hen
  · rintro ⟨r, hr, hf, hne⟩
    obtain ⟨no, mode, hdial⟩ := dial_of_enabled h ht hen
    have hmem : r.id ∈ (s.file.filter fun r => t.network.Finds r).map Rec.id :=
      List.mem_map_of_mem (List.mem_filter.2 ⟨hr, by simpa using hf⟩)
    -- another record is found, and the section is refused
    have hnil : (s.file.filter fun r => t.network.Finds r).map Rec.id ≠ [] :=
      List.ne_nil_of_mem hmem
    have hself : (s.file.filter fun r => t.network.Finds r).map Rec.id ≠ [t.id] := by
      intro he
      rw [he] at hmem
      exact hne (List.mem_singleton.1 hmem)
    refine hfair.refused hen ⟨{ t with enable := false }, ?_, rfl, by simp⟩
    rw [hdial]
    simp only [if_neg hnil, if_pos hself]
    exact List.mem_map.2 ⟨t, ht, if_pos rfl⟩
  · intro hf
    by_contra hnot
    have hstops := hfair.stops hnot
    obtain ⟨no, mode, hstop⟩ := stopDial_of_found h ht hf
    rw [dial_of_disabled hen, hstop] at hstops
    simp at hstops

theorem mem_foldl_del {ids : List Id} {r : Rec} : ∀ {rs file : List Rec},
    r ∈ rs.foldl (fun file r => if r.id ∈ ids then file
      else file.filter fun r' => ¬ r.id.Finds r') file →
    r ∈ file ∧ ∀ x ∈ rs, x.id ∉ ids → ¬ x.id.Finds r
  | [], file, h => ⟨h, by simp⟩
  | x :: rs, file, h => by
    rw [List.foldl_cons] at h
    obtain ⟨hmem, hrest⟩ := mem_foldl_del h
    split_ifs at hmem with hx
    · exact ⟨hmem, List.forall_mem_cons.2 ⟨fun hnot => absurd hx hnot, hrest⟩⟩
    · obtain ⟨hmem, hnot⟩ := List.mem_filter.1 hmem
      exact ⟨hmem, List.forall_mem_cons.2 ⟨fun _ => by simpa using hnot, hrest⟩⟩

/-- A record that stays is that of one of the first two sections. -/
theorem mem_delDialConfig {r : Rec} (hr : r ∈ (delDialConfig s).file) :
    r ∈ s.file ∧ ∃ t ∈ s.sections.take 2, t.id = r.id := by
  obtain ⟨hmem, hrest⟩ := mem_foldl_del hr
  refine ⟨hmem, ?_⟩
  by_contra hnot
  refine hrest r hmem (fun hid => hnot ?_) (Id.finds_self r)
  obtain ⟨t, ht, he⟩ := List.mem_map.1 hid
  exact ⟨t, ht, he⟩

theorem foldl_del_sublist {ids : List Id} : ∀ {rs file : List Rec},
    (rs.foldl (fun file r => if r.id ∈ ids then file
      else file.filter fun r' => ¬ r.id.Finds r') file).Sublist file
  | [], file => List.Sublist.refl file
  | x :: rs, file => by
    rw [List.foldl_cons]
    refine foldl_del_sublist.trans ?_
    split_ifs
    · exact List.Sublist.refl file
    · exact List.filter_sublist

/-- What is left is recorded for sections that are still to be handled. -/
theorem Inv.reload (h : Inv c s) (hok : KeepsDial s .reload) :
    Named (delDialConfig s) s.sections
      ∧ Inv c { delDialConfig s with todo := s.sections, modemNo := none } := by
  have hn : Named (delDialConfig s) s.sections := by
    intro r hr
    obtain ⟨hmem, t, ht, hid⟩ := mem_delDialConfig hr
    have ht' := List.mem_of_mem_take ht
    exact ⟨t, ht', hid, hok r hmem t ht hid, .inr ht'⟩
  exact ⟨hn, h.wellFormed, h.unique.sublist (foldl_del_sublist.map _), fun _ ht => ht,
    h.wellFormed.1, fun _ => hn⟩

theorem oneDial_of_named (h : Inv c s) (hn : Named s []) : s.OneDial := by
  refine ⟨h.unique, fun r hr => ?_⟩
  obtain ⟨t, ht, hid, hnet, hor⟩ := hn r hr
  exact ⟨t, ht, hid, hor.resolve_right List.not_mem_nil, hnet⟩

theorem inv_step {i : Input} {s' : St} (h : Inv c s) (hok : KeepsDial s i)
    (hs : step c s i = some s') : Inv c s' := by
  cases i with
  | edit sections =>
    obtain ⟨⟨htodo, hwf⟩, hs⟩ := Option.ite_none_right_eq_some.1 hs
    cases hs
    exact ⟨hwf, h.unique, by simp [htodo], by simp [htodo], fun hne => absurd htodo hne⟩
  | reload =>
    obtain ⟨-, hs⟩ := Option.ite_none_right_eq_some.1 hs
    cases hs
    exact (h.reload hok).2
  | next =>
    simp only [step] at hs
    split at hs
    · rename_i t rest htodo
      cases hs
      exact (h.dial htodo hok).2.2
    · simp at hs

theorem rightAfter_of_keepsDial {i : Input} (h : Inv c s) (hok : KeepsDial s i) :
    RightAfter c s i := by
  cases i with
  | edit sections => trivial
  | reload =>
    intro s' hs hend
    have hI := inv_step h hok hs
    obtain ⟨-, hs⟩ := Option.ite_none_right_eq_some.1 hs
    cases hs
    have hnil : s.sections = [] := hend
    have hn := (h.reload hok).1
    rw [hnil] at hn
    exact oneDial_of_named hI hn
  | next =>
    intro s' hs
    have hI := inv_step h hok hs
    simp only [step] at hs
    split at hs
    · rename_i t rest htodo
      cases hs
      obtain ⟨hn, hfair, -⟩ := h.dial htodo hok
      refine ⟨fun hend => ?_, fun u hu => ?_⟩
      · have hnil : rest = [] := hend
        rw [hnil] at hn
        exact oneDial_of_named hI hn
      · rw [htodo] at hu
        cases hu
        exact ⟨hfair.refused, hfair.records, hfair.stops⟩
    · simp at hs

/-- In a run whose steps all meet the condition, every section that is handled is fair, and each
reload leaves one dial a network. -/
theorem oneDial_of_keepsDial {is : List Input} (h : Runs.Meets (step c) KeepsDial .start is) :
    Runs.Meets (step c) (RightAfter c) .start is :=
  Runs.meets_of_inv (fun _ _ _ => inv_step) (fun _ _ => rightAfter_of_keepsDial) Inv.start h

def wwan0 : Name :=
  ⟨['w', 'w', 'a', 'n', '0'], by simp, by simp, by simp⟩

def wwan0_1 : Name :=
  ⟨['w', 'w', 'a', 'n', '0', '_', '1'], by simp, by simp, by simp⟩

def usb0 : Name :=
  ⟨['u', 's', 'b', '0'], by simp, by simp, by simp⟩

/-- The id of a section, of one character. -/
def sectionId (x : Char) (h : x.isAlphanum) : Id := ⟨[x], by simp [h], by simp⟩

def idA : Id := sectionId 'A' rfl
def idB : Id := sectionId 'B' rfl

def threeModems : Cfg where
  modems := [⟨some wwan0, "qmi_wwan"⟩, ⟨some usb0, "cdc_ether"⟩, ⟨some wwan0_1, "cdc_mbim"⟩]

/-- The second section takes the network over from the first one, and keeps it. -/
def handedOver : List Input :=
  [.edit [⟨idA, true, wwan0⟩, ⟨idB, true, usb0⟩], .reload, .next, .next,
    .edit [⟨idA, false, wwan0⟩, ⟨idB, false, usb0⟩], .reload, .next, .next,
    .edit [⟨idB, true, wwan0⟩, ⟨idA, true, wwan0⟩], .reload, .next, .next]

theorem oneDial_handedOver :
    Runs.Meets (step threeModems) (RightAfter threeModems) .start handedOver :=
  oneDial_of_keepsDial (by decide +kernel)

/-- A section that was refused stops the dial of the other one at the next reload. A section is
refused because of a network whose name contains that of its own. A section whose network was
changed keeps its old record. -/
theorem dial_wrong :
    ¬ Runs.Meets (step threeModems) (RightAfter threeModems) .start
      [.edit [⟨idA, true, wwan0⟩, ⟨idB, true, wwan0⟩], .reload, .next, .next, .reload, .next, .next]
    ∧ ¬ Runs.Meets (step threeModems) (RightAfter threeModems) .start
      [.edit [⟨idA, true, wwan0_1⟩, ⟨idB, true, wwan0⟩], .reload, .next, .next]
    ∧ ¬ Runs.Meets (step threeModems) (RightAfter threeModems) .start
      [.edit [⟨idA, true, wwan0⟩], .reload, .next, .edit [⟨idA, true, usb0⟩], .reload, .next] := by
  refine ⟨?_, ?_, ?_⟩ <;> decide +kernel

end Dial

end BananaWrt
