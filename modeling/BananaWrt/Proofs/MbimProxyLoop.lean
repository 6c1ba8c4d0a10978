import BananaWrt.MbimProxyRun

/-!
# The MBIM proxy keeps serving

What holds while `proxy_loop` runs (`Sound`): a slot in use has its own number, descriptors are
all different, and the descriptors still to be served in a round are open. A client that fails
shows in one of two ways. A hang-up frees its slot and nothing else. A read that returns nothing
frees its slot too, but then leaves `proxy_loop`; apart from that, only the device and `poll` end
the loop (`contained_iff`).
-/

namespace BananaWrt

namespace MbimProxy

open Bytes

section Lookup

variable {cs : CmClients} {p : CmClient → Prop} [DecidablePred p]

theorem firstClient_some {i : Fin CM_MAX_CLIENT} (h : firstClient cs p = some i) : p (cs i) := by
  simpa using List.find?_some h

theorem firstClient_none : firstClient cs p = none ↔ ∀ i, ¬ p (cs i) := by
  simp [firstClient]

theorem firstClient_eq {i : Fin CM_MAX_CLIENT} (hi : p (cs i)) (hu : ∀ j, p (cs j) → j = i) :
    firstClient cs p = some i := by
  rcases h : firstClient cs p with _ | j
  · exact absurd hi (firstClient_none.1 h i)
  · rw [hu j (firstClient_some h)]

end Lookup

def CmClient.Live (c : CmClient) : Prop := 0 < c.clientFd

instance : DecidablePred CmClient.Live := fun _ => inferInstanceAs (Decidable (_ < _))

theorem mem_openFds {cs : CmClients} {fd : ℤ} :
    fd ∈ openFds cs ↔ ∃ i, (cs i).Live ∧ (cs i).clientFd = fd := by
  simp only [openFds, List.mem_filter, List.mem_map, List.mem_finRange, true_and,
    decide_eq_true_eq, CmClient.Live]
  constructor
  · rintro ⟨⟨i, rfl⟩, h⟩
    exact ⟨i, h, rfl⟩
  · rintro ⟨i, h, rfl⟩
    exact ⟨⟨i, rfl⟩, h⟩

/-- The slots in use have their own number, and no two of them the same descriptor. -/
structure Slots (cs : CmClients) : Prop where
  idx : ∀ i, (cs i).Live → (cs i).clientIdx = i + 1
  fds : ∀ i j, (cs i).Live → (cs i).clientFd = (cs j).clientFd → i = j

theorem nodup_openFds {cs : CmClients} (h : Slots cs) : (openFds cs).Nodup := by
  have hfilter : openFds cs = ((List.finRange CM_MAX_CLIENT).filter fun i => (cs i).Live).map
      fun i => (cs i).clientFd := by
    unfold openFds
    rw [List.filter_map]
    rfl
  rw [hfilter]
  refine List.Nodup.map_on (fun i hi j _ hij => ?_) ((List.nodup_finRange _).filter _)
  exact h.fds i j (by simpa using (List.mem_filter.1 hi).2) hij

theorem Slots.lookup {cs : CmClients} (h : Slots cs) {i : Fin CM_MAX_CLIENT}
    (hi : (cs i).Live) : firstClient cs (·.clientFd = (cs i).clientFd) = some i :=
  firstClient_eq rfl fun j hj => (h.fds i j hi hj.symm).symm

theorem handleClientConnect_cases (cs : CmClients) (fd : ℤ) (con : ℕ) :
    handleClientConnect cs fd con = cs
      ∨ ∃ i, ¬ (cs i).Live ∧ handleClientConnect cs fd con
          = Function.update cs i ⟨fd, i + 1, con⟩ := by
  unfold handleClientConnect
  split_ifs
  · exact .inl rfl
  · split
    · rename_i i hi
      have hfree := firstClient_some hi
      exact .inr ⟨i, by simpa [CmClient.Live] using hfree, rfl⟩
    · exact .inl rfl

theorem handleClientDisconnect_live {cs : CmClients} (h : Slots cs) {i : Fin CM_MAX_CLIENT}
    (hi : (cs i).Live) : handleClientDisconnect cs (cs i).clientFd
      = Function.update cs i { cs i with clientFd := -1 } := by
  have hpos : 0 < (cs i).clientFd := hi
  unfold handleClientDisconnect
  rw [h.lookup hi]
  simp only [safeClose, if_pos hpos]

theorem Slots.update {cs : CmClients} (h : Slots cs) {i : Fin CM_MAX_CLIENT} {c : CmClient}
    (hidx : c.Live → c.clientIdx = i + 1)
    (hfd : ∀ j, (cs j).Live → (cs j).clientFd ≠ c.clientFd) : Slots (Function.update cs i c) := by
  refine ⟨fun j hj => ?_, fun j k hj hjk => ?_⟩
  · by_cases hji : j = i
    · subst hji
      rw [Function.update_self] at hj ⊢
      exact hidx hj
    · rw [Function.update_of_ne hji] at hj ⊢
      exact h.idx j hj
  · by_cases hji : j = i <;> by_cases hki : k = i
    · rw [hji, hki]
    · rw [hji, Function.update_self] at hj hjk
      rw [Function.update_of_ne hki] at hjk
      exact absurd hjk.symm (hfd k (by unfold CmClient.Live at *; rwa [← hjk]))
    · rw [Function.update_of_ne hji] at hj hjk
      rw [hki, Function.update_self] at hjk
      exact absurd hjk (hfd j hj)
    · rw [Function.update_of_ne hji] at hj hjk
      rw [Function.update_of_ne hki] at hjk
      exact h.fds j k hj hjk

theorem Slots.connect {cs : CmClients} (h : Slots cs) {fd : ℤ} (hfd : fd ∉ openFds cs)
    (con : ℕ) : Slots (handleClientConnect cs fd con) := by
  rcases handleClientConnect_cases cs fd con with heq | ⟨i, -, heq⟩
  · rwa [heq]
  · rw [heq]
    exact h.update (fun _ => rfl) fun j hj hjfd => hfd (mem_openFds.2 ⟨j, hj, hjfd⟩)

theorem Slots.disconnect {cs : CmClients} (h : Slots cs) {i : Fin CM_MAX_CLIENT}
    (hi : (cs i).Live) : Slots (handleClientDisconnect cs (cs i).clientFd) := by
  rw [handleClientDisconnect_live h hi]
  refine h.update (fun hl => absurd hl (by simp [CmClient.Live])) fun j hj => ?_
  have hpos : 0 < (cs j).clientFd := hj
  simp only
  omega

/-- What is found at `fd` and what it does. -/
def Effect (w : World) (fd : ℤ) : Ready → World → Prop
  | .quiet, w' => w' = w
  | .hangup, w' => (fd = w.devFd ∧ w' = w.error) ∨ (fd ≠ w.devFd ∧ fd = w.serverFd ∧ w' = w)
      ∨ (fd ≠ w.devFd ∧ fd ≠ w.serverFd
          ∧ w' = { w with cmClients := handleClientDisconnect w.cmClients fd })
  | .accepted cfd, w' => fd = w.serverFd ∧ (cfd < 0 ∨ w.FreshFd cfd)
      ∧ w' = { w with
          cmClients := handleClientConnect w.cmClients cfd w.nextCon
          nextCon := w.nextCon + 1 }
  | .noData len, w' => fd ≠ w.serverFd ∧ len ≤ 0 ∧ ((fd = w.devFd ∧ w' = w.error)
      ∨ (fd ≠ w.devFd ∧ w' = { w with
          cmClients := handleClientDisconnect w.cmClients fd
          exited := some len }))
  | .data stale chunk made, w' => fd ≠ w.serverFd ∧ chunk ≠ [] ∧ (made = -1 ∨ w.FreshFd made)
      ∧ ((fd = w.devFd ∧ w' = (w.deviceData (overlay chunk stale) chunk.length made).1)
        ∨ (fd ≠ w.devFd
          ∧ w' = { w with requests := w.record fd (overlay chunk stale) chunk.length }))

theorem effect_of_serve {w w' : World} {fd : ℤ} {e : Ready} {out : List Out}
    (h : serve w fd e = some (w', out)) : Effect w fd e w' := by
  cases e with
  | quiet =>
    simp only [serve, Option.some.injEq, Prod.mk.injEq] at h
    exact h.1.symm
  | hangup =>
    simp only [serve] at h
    split_ifs at h with h1 h2 <;> simp only [Option.some.injEq, Prod.mk.injEq] at h
    · exact .inl ⟨h1, h.1.symm⟩
    · exact .inr (.inl ⟨h1, h2, h.1.symm⟩)
    · exact .inr (.inr ⟨h1, h2, h.1.symm⟩)
  | accepted cfd =>
    simp only [serve, Option.ite_none_right_eq_some, Option.some.injEq, Prod.mk.injEq] at h
    exact ⟨h.1.1, h.1.2, h.2.1.symm⟩
  | noData len =>
    simp only [serve] at h
    split_ifs at h with h1 h2 <;> simp only [Option.some.injEq, Prod.mk.injEq] at h
    · push Not at h1
      exact ⟨h1.1, h1.2, .inl ⟨h2, h.1.symm⟩⟩
    · push Not at h1
      exact ⟨h1.1, h1.2, .inr ⟨h2, h.1.symm⟩⟩
  | data stale chunk made =>
    simp only [serve] at h
    split_ifs at h with h1 h2 <;> simp only [Option.some.injEq, Prod.mk.injEq] at h <;>
      obtain ⟨h3, h4⟩ := not_or.1 h1 <;> obtain ⟨h4, h5⟩ := not_or.1 h4
    · exact ⟨h3, h4, not_not.1 h5, .inl ⟨h2, by rw [h]⟩⟩
    · exact ⟨h3, h4, not_not.1 h5, .inr ⟨h2, h.1.symm⟩⟩

theorem step_cases {w w' : World} {i : Input} (h : step w i = some w') :
    w.exited = none ∧ ((∃ ok, i = .poll ok ∧ w.todo = []
        ∧ w' = if ok then { w with todo := w.pollfds } else w.error)
      ∨ ∃ fd rest e, i = .event e ∧ w.todo = fd :: rest
        ∧ Effect { w with todo := rest } fd e w') := by
  unfold step at h
  rcases hx : w.exited with _ | x
  · refine ⟨rfl, ?_⟩
    rw [hx, if_neg (by simp)] at h
    rcases ht : w.todo with _ | ⟨fd, rest⟩ <;> rcases i with ok | e <;>
      simp only [ht, reduceCtorEq, Option.some.injEq] at h
    · exact .inl ⟨ok, rfl, rfl, h.symm⟩
    · obtain ⟨⟨w'', out⟩, hs, rfl⟩ := Option.map_eq_some_iff.1 h
      exact .inr ⟨fd, rest, e, rfl, rfl, effect_of_serve hs⟩
  · simp [hx] at h

structure Sound (w : World) : Prop where
  dev : 0 < w.devFd
  slots : Slots w.cmClients
  server : w.serverFd = -1 ∨ 0 < w.serverFd ∧ w.serverFd ≠ w.devFd
  apart : ∀ fd ∈ openFds w.cmClients, fd ≠ w.devFd ∧ fd ≠ w.serverFd
  before : w.serverFd = -1 → openFds w.cmClients = []
  todo : ∀ fd ∈ w.todo, fd = w.devFd ∨ fd = w.serverFd ∧ 0 < w.serverFd
    ∨ fd ∈ openFds w.cmClients
  once : w.todo.Nodup

theorem sound_init {devFd : ℤ} (h : 0 < devFd) : Sound (World.init devFd) where
  dev := h
  slots := ⟨by simp [World.init, CmClient.Live], by simp [World.init, CmClient.Live]⟩
  server := .inl rfl
  apart := by simp [mem_openFds, World.init, CmClient.Live]
  before _ := List.eq_nil_iff_forall_not_mem.2 (by simp [mem_openFds, World.init, CmClient.Live])
  todo := by simp [World.init]
  once := List.nodup_nil

theorem mem_openFds_connect {cs : CmClients} {cfd : ℤ} {con : ℕ} {fd : ℤ}
    (h : fd ∈ openFds (handleClientConnect cs cfd con)) : fd ∈ openFds cs ∨ fd = cfd := by
  rcases handleClientConnect_cases cs cfd con with heq | ⟨i, -, heq⟩
  · exact .inl (heq ▸ h)
  rw [heq] at h
  obtain ⟨j, hj, rfl⟩ := mem_openFds.1 h
  by_cases hji : j = i
  · rw [hji, Function.update_self]
    exact .inr rfl
  · rw [Function.update_of_ne hji] at hj ⊢
    exact .inl (mem_openFds.2 ⟨j, hj, rfl⟩)

theorem openFds_subset_connect (cs : CmClients) (cfd : ℤ) (con : ℕ) :
    openFds cs ⊆ openFds (handleClientConnect cs cfd con) := by
  intro fd hfd
  rcases handleClientConnect_cases cs cfd con with heq | ⟨i, hi, heq⟩
  · rwa [heq]
  obtain ⟨j, hj, rfl⟩ := mem_openFds.1 hfd
  have hji : j ≠ i := by
    rintro rfl
    exact hi hj
  rw [heq]
  exact mem_openFds.2 ⟨j, by rwa [Function.update_of_ne hji], by rw [Function.update_of_ne hji]⟩

theorem mem_openFds_disconnect {cs : CmClients} (h : Slots cs) {i : Fin CM_MAX_CLIENT}
    (hi : (cs i).Live) (fd : ℤ) : fd ∈ openFds (handleClientDisconnect cs (cs i).clientFd)
      ↔ fd ∈ openFds cs ∧ fd ≠ (cs i).clientFd := by
  rw [handleClientDisconnect_live h hi, mem_openFds, mem_openFds]
  constructor
  · rintro ⟨j, hj, rfl⟩
    by_cases hji : j = i
    · rw [hji, Function.update_self] at hj
      simp [CmClient.Live] at hj
    · rw [Function.update_of_ne hji] at hj ⊢
      exact ⟨⟨j, hj, rfl⟩, fun heq => hji (h.fds j i hj heq)⟩
  · rintro ⟨⟨j, hj, rfl⟩, hne⟩
    have hji : j ≠ i := by
      rintro rfl
      exact hne rfl
    exact ⟨j, by rwa [Function.update_of_ne hji], by rw [Function.update_of_ne hji]⟩

theorem Sound.next {w : World} (h : Sound w) {fd : ℤ} {rest : List ℤ} (ht : w.todo = fd :: rest) :
    Sound { w with todo := rest } ∧ fd ∉ rest := by
  have honce := h.once
  rw [ht, List.nodup_cons] at honce
  exact ⟨⟨h.dev, h.slots, h.server, h.apart, h.before,
    fun fd' hfd' => h.todo fd' (by rw [ht]; exact List.mem_cons_of_mem _ hfd'), honce.2⟩, honce.1⟩

theorem Sound.client {w : World} (h : Sound w) (fd : ℤ) (hfd : fd ∈ w.todo)
    (hd : fd ≠ w.devFd) (hs : fd ≠ w.serverFd) :
    ∃ i, (w.cmClients i).Live ∧ (w.cmClients i).clientFd = fd := by
  rcases h.todo fd hfd with h1 | h1 | h1
  · exact absurd h1 hd
  · exact absurd h1.1 hs
  · exact mem_openFds.1 h1

theorem Sound.disconnect {w : World} (h : Sound w) {i : Fin CM_MAX_CLIENT}
    (hi : (w.cmClients i).Live) (ht : (w.cmClients i).clientFd ∉ w.todo) :
    Sound { w with
      cmClients := handleClientDisconnect w.cmClients (w.cmClients i).clientFd } where
  dev := h.dev
  slots := h.slots.disconnect hi
  server := h.server
  apart fd hfd := h.apart fd ((mem_openFds_disconnect h.slots hi fd).1 hfd).1
  before hs := by
    have hmem := mem_openFds.2 ⟨i, hi, rfl⟩
    rw [h.before hs] at hmem
    exact absurd hmem (List.not_mem_nil)
  todo fd hfd := by
    rcases h.todo fd hfd with h1 | h1 | h1
    · exact .inl h1
    · exact .inr (.inl h1)
    · refine .inr (.inr ((mem_openFds_disconnect h.slots hi fd).2 ⟨h1, ?_⟩))
      rintro rfl
      exact ht hfd
  once := h.once

theorem Sound.accepted {w : World} (h : Sound w) (hs : 0 < w.serverFd) {cfd : ℤ}
    (hcfd : cfd < 0 ∨ w.FreshFd cfd) : Sound { w with
      cmClients := handleClientConnect w.cmClients cfd w.nextCon
      nextCon := w.nextCon + 1 } := by
  rcases hcfd with hneg | ⟨hpos, hdev, hserver, hfresh⟩
  · have heq : handleClientConnect w.cmClients cfd w.nextCon = w.cmClients := by
      rw [handleClientConnect, if_pos hneg]
    rw [heq]
    exact ⟨h.dev, h.slots, h.server, h.apart, h.before, h.todo, h.once⟩
  · refine ⟨h.dev, h.slots.connect hfresh _, h.server, fun fd hfd => ?_, fun hs' => ?_,
      fun fd hfd => ?_, h.once⟩
    · rcases mem_openFds_connect hfd with h1 | rfl
      · exact h.apart fd h1
      · exact ⟨hdev, hserver⟩
    · simp only at hs'
      omega
    · rcases h.todo fd hfd with h1 | h1 | h1
      · exact .inl h1
      · exact .inr (.inl h1)
      · exact .inr (.inr (openFds_subset_connect _ _ _ h1))

theorem Sound.deviceData {w : World} (h : Sound w) {pdata : Bytes} {len : ℕ} {made : ℤ}
    (hmade : made = -1 ∨ w.FreshFd made)
    (hx : (w.deviceData pdata len made).1.exited = none) :
    Sound (w.deviceData pdata len made).1 := by
  unfold World.deviceData at hx ⊢
  split_ifs with h1 h2 h3
  · simp [h1, h2, h3, World.error] at hx
  · have hnil := h.before h1
    refine ⟨h.dev, h.slots, ?_, ?_, fun _ => hnil, fun fd hfd => ?_, h.once⟩
    · exact hmade.imp id fun hf => ⟨hf.1, hf.2.1⟩
    · simp [hnil]
    · rcases h.todo fd hfd with h4 | h4 | h4
      · exact .inl h4
      · omega
      · exact .inr (.inr h4)
  · exact h
  · exact h

theorem Sound.poll {w : World} (h : Sound w) : Sound { w with todo := w.pollfds } := by
  refine ⟨h.dev, h.slots, h.server, h.apart, h.before, fun fd hfd => ?_, ?_⟩
  · simp only [World.pollfds, List.mem_cons] at hfd
    rcases hfd with rfl | hfd
    · exact .inl rfl
    · split_ifs at hfd with hs
      · rcases List.mem_cons.1 hfd with rfl | hfd
        · exact .inr (.inl ⟨rfl, hs⟩)
        · exact .inr (.inr hfd)
      · simp at hfd
  · unfold World.pollfds
    have hopen : (openFds w.cmClients).Nodup := nodup_openFds h.slots
    split_ifs with hs
    · have hserver : w.devFd ≠ w.serverFd := by
        rcases h.server with h1 | h1
        · omega
        · exact h1.2.symm
      refine List.nodup_cons.2 ⟨?_, List.nodup_cons.2 ⟨fun hm => (h.apart _ hm).2 rfl, hopen⟩⟩
      simp only [List.mem_cons, not_or]
      exact ⟨hserver, fun hm => (h.apart _ hm).1 rfl⟩
    · simp

theorem step_sound {w w' : World} {i : Input} (h : Sound w) (hs : step w i = some w')
    (hx : w'.exited = none) : Sound w' := by
  obtain ⟨-, ⟨ok, rfl, -, rfl⟩ | ⟨fd, rest, e, rfl, ht, he⟩⟩ := step_cases hs
  · cases ok with
    | true => exact h.poll
    | false => simp [World.error] at hx
  obtain ⟨hn, hrest⟩ := h.next ht
  have hclient := h.client fd (by simp [ht])
  cases e with
  | quiet => exact he ▸ hn
  | hangup =>
    rcases he with ⟨-, rfl⟩ | ⟨-, -, rfl⟩ | ⟨h1, h2, rfl⟩
    · simp [World.error] at hx
    · exact hn
    · obtain ⟨j, hj, rfl⟩ := hclient h1 h2
      exact hn.disconnect hj hrest
  | accepted cfd =>
    obtain ⟨hserver, hcfd, rfl⟩ := he
    refine hn.accepted ?_ hcfd
    rcases h.todo fd (by simp [ht]) with rfl | h1 | h1
    · have hdev := h.dev
      rcases h.server with h2 | h2
      · exact absurd (hserver.trans h2) (by omega)
      · exact absurd hserver.symm h2.2
    · exact h1.2
    · exact absurd hserver (h.apart fd h1).2
  | noData len =>
    obtain ⟨-, -, ⟨-, rfl⟩ | ⟨-, rfl⟩⟩ := he
    · simp [World.error] at hx
    · simp at hx
  | data stale chunk made =>
    obtain ⟨-, -, hmade, ⟨-, rfl⟩ | ⟨-, rfl⟩⟩ := he
    · exact hn.deviceData hmade hx
    · exact ⟨hn.dev, hn.slots, hn.server, hn.apart, hn.before, hn.todo, hn.once⟩

theorem sound_of_run {devFd : ℤ} (hdev : 0 < devFd) {is : List Input} {w : World}
    (hr : run devFd is = some w) : w.exited = none → Sound w := by
  refine Runs.exec_keeps (I := fun w => w.exited = none → Sound w) (fun w i w' hI hs hx => ?_)
    (fun _ => sound_init hdev) hr
  exact step_sound (hI (step_cases hs).1) hs hx

def Ready.Fails : Ready → Prop
  | .hangup | .noData _ => True
  | _ => False

/-- After what was found at the client on `fd` the loop serves on, the other clients have their
slots and are polled, and the client's own slot is free if it is gone. -/
structure Isolated (w w' : World) (fd : ℤ) (e : Ready) : Prop where
  serving : w'.exited = none
  others : ∀ i, (w.cmClients i).clientFd ≠ fd → w'.cmClients i = w.cmClients i
  polled : ∀ f ∈ openFds w.cmClients, f ≠ fd → f ∈ w'.pollfds
  freed : e.Fails → ∀ i, (w.cmClients i).clientFd = fd → ¬ (w'.cmClients i).Live
  kept : ¬ e.Fails → w'.cmClients = w.cmClients

/-- The device hangs up, has nothing to read, or answers `MBIM_OPEN_MSG` with an error. -/
def DeviceFails (w : World) : Ready → Prop
  | .hangup | .noData _ => True
  | .data stale chunk _ => w.serverFd = -1 ∧ messageType (overlay chunk stale) = MBIM_OPEN_DONE
      ∧ openDoneStatus (overlay chunk stale) ≠ 0
  | _ => False

/-- Clients are isolated from each other's failures, and only the device and `poll` end the
loop. -/
def Contained (w : World) (i : Input) (w' : World) : Prop :=
  (∀ fd rest e, i = .event e → w.todo = fd :: rest → fd ≠ w.devFd → fd ≠ w.serverFd →
      Isolated w w' fd e)
    ∧ (w'.exited ≠ none → i = .poll false
      ∨ ∃ rest e, i = .event e ∧ w.todo = w.devFd :: rest ∧ DeviceFails w e)

/-- A client is ready to be read without a hang-up, and the read returns nothing. -/
def ClientReadsNothing (w : World) (i : Input) : Prop :=
  ∃ fd rest len, i = .event (.noData len) ∧ w.todo = fd :: rest ∧ fd ≠ w.devFd

theorem Sound.pollfds_of_openFds {w : World} (h : Sound w) {f : ℤ} (hf : f ∈ openFds w.cmClients) :
    f ∈ w.pollfds := by
  have hserver : 0 < w.serverFd := by
    rcases h.server with h1 | h1
    · simp [h.before h1] at hf
    · exact h1.1
  rw [World.pollfds, if_pos hserver]
  exact List.mem_cons_of_mem _ (List.mem_cons_of_mem _ hf)

theorem Sound.isolated_hangup {w : World} (h : Sound w) {i : Fin CM_MAX_CLIENT}
    (hi : (w.cmClients i).Live) (rest : List ℤ) (hx : w.exited = none) :
    Isolated w { w with
      todo := rest
      cmClients := handleClientDisconnect w.cmClients (w.cmClients i).clientFd }
      (w.cmClients i).clientFd .hangup where
  serving := hx
  others j hj := by
    have hji : j ≠ i := by
      rintro rfl
      exact hj rfl
    simp only [handleClientDisconnect_live h.slots hi, Function.update_of_ne hji]
  polled f hf hne := by
    have h1 := h.pollfds_of_openFds hf
    simp only [World.pollfds, List.mem_cons] at h1 ⊢
    refine h1.imp_right fun h2 => ?_
    split_ifs at h2 ⊢
    · exact List.mem_cons_of_mem _ ((mem_openFds_disconnect h.slots hi f).2 ⟨hf, hne⟩)
    · simp at h2
  freed _ j hj := by
    obtain rfl := h.slots.fds i j hi hj.symm
    simp [handleClientDisconnect_live h.slots hi, CmClient.Live]
  kept hf := absurd trivial hf

theorem Sound.isolated_quiet {w : World} (h : Sound w) (hx : w.exited = none) (rest : List ℤ)
    (rs : List Request) (fd : ℤ) {e : Ready} (he : ¬ e.Fails) :
    Isolated w { w with todo := rest, requests := rs } fd e where
  serving := hx
  others _ _ := rfl
  polled _ hf _ := h.pollfds_of_openFds hf
  freed hf := absurd hf he
  kept _ := rfl

theorem Sound.isolated {w w' : World} (h : Sound w) (hx : w.exited = none) {fd : ℤ}
    {rest : List ℤ} {e : Ready} (ht : w.todo = fd :: rest) (hd : fd ≠ w.devFd)
    (hs : fd ≠ w.serverFd) (he : Effect { w with todo := rest } fd e w')
    (hne : ∀ len, e ≠ .noData len) : Isolated w w' fd e := by
  obtain ⟨i, hi, rfl⟩ := h.client fd (by simp [ht]) hd hs
  cases e with
  | quiet =>
    subst he
    exact h.isolated_quiet hx rest w.requests _ (e := .quiet) not_false
  | hangup =>
    rcases he with ⟨h1, -⟩ | ⟨-, h2, -⟩ | ⟨-, -, rfl⟩
    · exact absurd h1 hd
    · exact absurd h2 hs
    · exact h.isolated_hangup hi rest hx
  | accepted cfd => exact absurd he.1 hs
  | noData len => exact absurd rfl (hne len)
  | data stale chunk made =>
    obtain ⟨-, -, -, ⟨h1, -⟩ | ⟨-, rfl⟩⟩ := he
    · exact absurd h1 hd
    · exact h.isolated_quiet hx rest _ _ (e := .data stale chunk made) not_false

theorem exited_cases {w w' : World} {i : Input} (hs : step w i = some w')
    (hx : w'.exited ≠ none) : i = .poll false
      ∨ (∃ rest e, i = .event e ∧ w.todo = w.devFd :: rest ∧ DeviceFails w e)
      ∨ ClientReadsNothing w i := by
  obtain ⟨h0, ⟨ok, rfl, -, rfl⟩ | ⟨fd, rest, e, rfl, ht, he⟩⟩ := step_cases hs
  · cases ok with
    | true => exact absurd h0 hx
    | false => exact .inl rfl
  refine .inr ?_
  cases e with
  | quiet =>
    subst he
    exact absurd h0 hx
  | hangup =>
    rcases he with ⟨rfl, -⟩ | ⟨-, -, rfl⟩ | ⟨-, -, rfl⟩
    · exact .inl ⟨rest, _, rfl, ht, trivial⟩
    · exact absurd h0 hx
    · exact absurd h0 hx
  | accepted cfd =>
    obtain ⟨-, -, rfl⟩ := he
    exact absurd h0 hx
  | noData len =>
    obtain ⟨-, -, ⟨rfl, -⟩ | ⟨h1, -⟩⟩ := he
    · exact .inl ⟨rest, _, rfl, ht, trivial⟩
    · exact .inr ⟨fd, rest, len, rfl, ht, h1⟩
  | data stale chunk made =>
    obtain ⟨-, -, -, ⟨rfl, rfl⟩ | ⟨-, rfl⟩⟩ := he
    · refine .inl ⟨rest, _, rfl, ht, ?_⟩
      unfold World.deviceData at hx
      split_ifs at hx with h1 h2 h3
      · exact ⟨h1, h2, h3⟩
      · exact absurd h0 hx
      · exact absurd h0 hx
      · exact absurd h0 hx
    · exact absurd h0 hx

/-- Whatever the loop has done before, a failing client is contained and the loop serves on,
exactly if it does not fail by a read that returns nothing. -/
theorem contained_iff (devFd : ℤ) (hdev : 0 < devFd) (is : List Input) {w w' : World} {i : Input}
    (hr : run devFd is = some w) (hs : step w i = some w') :
    Contained w i w' ↔ ¬ ClientReadsNothing w i := by
  have hx := (step_cases hs).1
  have h := sound_of_run hdev hr hx
  constructor
  · rintro ⟨hiso, -⟩ ⟨fd, rest, len, rfl, ht, hd⟩
    obtain ⟨-, ⟨_, h1, -⟩ | ⟨fd', rest', e, h1, ht', he⟩⟩ := step_cases hs
    · simp at h1
    simp only [Input.event.injEq] at h1
    subst h1
    rw [ht] at ht'
    simp only [List.cons.injEq] at ht'
    obtain ⟨rfl, rfl⟩ := ht'
    obtain ⟨hserver, -, ⟨h2, -⟩ | ⟨-, rfl⟩⟩ := he
    · exact hd h2
    · have := (hiso fd rest _ rfl ht hd hserver).serving
      simp at this
  · intro hno
    refine ⟨fun fd rest e hi ht hd hserver => ?_, fun hx' => ?_⟩
    · obtain ⟨-, ⟨_, h1, -⟩ | ⟨fd', rest', e', h1, ht', he⟩⟩ := step_cases hs
      · simp [hi] at h1
      rw [hi, Input.event.injEq] at h1
      subst h1
      rw [ht, List.cons.injEq] at ht'
      obtain ⟨rfl, rfl⟩ := ht'
      refine h.isolated hx ht hd hserver he fun len hlen => hno ?_
      exact ⟨fd, rest, len, by rw [hi, hlen], ht, hd⟩
    · rcases exited_cases hs hx' with h1 | h1 | h1
      · exact .inl h1
      · exact .inr h1
      · exact absurd h1 hno

/-- The device is opened and two clients connect. The clients are to be served next. -/
def twoClients : List Input :=
  [.poll true, .event (.data [] [1, 0, 0, 128, 16, 0, 0, 0, 1, 0, 0, 0, 0, 0, 0, 0] 4),
    .poll true, .event .quiet, .event (.accepted 5),
    .poll true, .event .quiet, .event (.accepted 6), .event .quiet,
    .poll true, .event .quiet, .event .quiet]

theorem contained_hangup : ∃ w w', run 3 twoClients = some w ∧ w.todo = [5, 6]
    ∧ step w (.event .hangup) = some w' ∧ openFds w'.cmClients = [6]
    ∧ Contained w (.event .hangup) w' :=
  ⟨_, _, rfl, rfl, rfl, by decide,
    (contained_iff 3 (by decide) twoClients rfl rfl).2 (by simp [ClientReadsNothing])⟩

/-- One client closes its socket and this shows as a read of length zero: `proxy_loop` is left,
with the other client connected. -/
theorem not_contained_noData : ∃ w w', run 3 twoClients = some w ∧ w.todo = [5, 6]
    ∧ step w (.event (.noData 0)) = some w' ∧ w'.exited = some 0
    ∧ ¬ Contained w (.event (.noData 0)) w' :=
  ⟨_, _, rfl, rfl, rfl, rfl, fun h =>
    absurd (h.1 5 [6] _ rfl rfl (by decide) (by decide)).serving (by decide)⟩

end MbimProxy

end BananaWrt
