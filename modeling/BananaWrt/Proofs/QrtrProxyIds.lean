import BananaWrt.Proofs.QrtrProxyServices
import Mathlib.Data.List.Perm.Basic
import Mathlib.Data.List.Nodup

/-!
# Client ids and ports of the QRTR proxy

A client gets its id and its port at the same time and gives them back at the same time, each from
the first free cell on. So id and port are the same number, which is below 240, and both maps mark
the numbers that the clients have (`Tidy`). This lasts as long as no client is made when the ids
have run out (`consistent_of_supplied`).
-/

namespace BananaWrt

namespace QrtrProxy

open Bytes Qmi

/-- The map in which exactly the given ids are marked. -/
def marks (ids : List ℕ) : ℕ → ℕ := fun id => if id ∈ ids then id else 0

theorem marks_eq_zero {ids : List ℕ} {id : ℕ} (hid : 1 ≤ id) : marks ids id = 0 ↔ id ∉ ids := by
  unfold marks
  split_ifs with h
  · simp only [h, not_true_eq_false, iff_false]
    omega
  · simp [h]

theorem marks_congr {ids ids' : List ℕ} (h : ∀ id, id ∈ ids ↔ id ∈ ids') :
    marks ids = marks ids' := by
  funext id
  unfold marks
  rw [if_congr (h id) rfl rfl]

/-- An id that is free below `size` is what both allocators give. -/
theorem allocId_marks {size : ℕ} {ids : List ℕ}
    (hfree : ∃ id ∈ List.range' 1 (sizeofClientBitmap - 1), marks ids id = 0)
    (hsize : sizeofClientBitmap ≤ size) :
    ∃ id, 1 ≤ id ∧ id < sizeofClientBitmap ∧ id ∉ ids
      ∧ (List.range' 1 (sizeofClientBitmap - 1)).find? (fun id => marks ids id = 0) = some id
      ∧ allocId size (marks ids) = (id, marks (ids ++ [id])) := by
  obtain ⟨free, hmem, hzero⟩ := hfree
  have hsome : ((List.range' 1 (sizeofClientBitmap - 1)).find? fun id => marks ids id = 0).isSome :=
    List.find?_isSome.2 ⟨free, hmem, by simpa using hzero⟩
  obtain ⟨id, hid⟩ := Option.isSome_iff_exists.1 hsome
  have hrange := List.mem_range'_1.1 (List.mem_of_find?_eq_some hid)
  have hcell : marks ids id = 0 := by simpa using List.find?_some hid
  have hlt : id < sizeofClientBitmap := by
    unfold sizeofClientBitmap at hrange ⊢
    omega
  have hsplit : List.range' 1 (size - 1) = List.range' 1 (sizeofClientBitmap - 1)
      ++ List.range' sizeofClientBitmap (size - sizeofClientBitmap) := by
    have happend := List.range'_append_1 (s := 1) (m := sizeofClientBitmap - 1)
      (n := size - sizeofClientBitmap)
    have hone : 1 + (sizeofClientBitmap - 1) = sizeofClientBitmap := rfl
    have hsum : sizeofClientBitmap - 1 + (size - sizeofClientBitmap) = size - 1 := by
      unfold sizeofClientBitmap at hsize ⊢
      omega
    rw [hone, hsum] at happend
    exact happend.symm
  have hfind : (List.range' 1 (size - 1)).find? (fun id => marks ids id = 0) = some id := by
    rw [hsplit, List.find?_append, hid, Option.some_or]
  refine ⟨id, hrange.1, hlt, (marks_eq_zero hrange.1).1 hcell, hid, ?_⟩
  unfold allocId
  rw [hfind]
  refine Prod.ext rfl ?_
  funext x
  have hbyte : id % 256 = id := Nat.mod_eq_of_lt (Nat.lt_trans hlt (by decide))
  by_cases hx : x = id
  · subst hx
    simp [marks, hbyte]
  · simp [marks, hx]

theorem freeId_marks {size id : ℕ} {ids ids' : List ℕ} (hnodup : ids.Nodup)
    (hperm : (id :: ids').Perm ids) (hlt : id < size) :
    freeId size (marks ids) id = marks ids' := by
  have hmem : id ∈ ids := hperm.subset List.mem_cons_self
  have hnot : id ∉ ids' := (List.nodup_cons.1 (hperm.nodup_iff.2 hnodup)).1
  unfold freeId
  rw [if_pos ⟨hlt, if_pos hmem⟩]
  funext x
  by_cases hx : x = id
  · subst hx
    simp [marks, hnot]
  · have hiff : x ∈ ids ↔ x ∈ ids' := by
      rw [← hperm.mem_iff, List.mem_cons, or_iff_right hx]
    simp [marks, hx, hiff]

section Connections

variable {fd : ℤ} {f : List Client → List Client}

theorem exists_of_cons {con : Connection} {cons : List Connection} (hfd : con.clientFd ≠ fd)
    (h : ∃ con' ∈ con :: cons, con'.clientFd = fd) : ∃ con' ∈ cons, con'.clientFd = fd := by
  obtain ⟨con', hmem, hfd'⟩ := h
  rcases List.mem_cons.1 hmem with rfl | hmem
  · exact absurd hfd' hfd
  · exact ⟨con', hmem, hfd'⟩

theorem clientsOn_updateConnection {cons : List Connection}
    (h : ∃ con ∈ cons, con.clientFd = fd) :
    clientsOn fd (updateConnection fd f cons) = f (clientsOn fd cons) := by
  induction cons with
  | nil =>
    obtain ⟨con, hcon, -⟩ := h
    exact absurd hcon List.not_mem_nil
  | cons con cons ih =>
    by_cases hfd : con.clientFd = fd
    · simp [clientsOn, updateConnection, hfd]
    · have hcons := ih (exists_of_cons hfd h)
      unfold clientsOn at hcons ⊢
      simpa [updateConnection, hfd] using hcons

theorem fds_updateConnection (cons : List Connection) :
    (updateConnection fd f cons).map (·.clientFd) = cons.map (·.clientFd) := by
  induction cons with
  | nil => rfl
  | cons con cons ih =>
    unfold updateConnection
    split_ifs
    · rfl
    · rw [List.map_cons, List.map_cons, ih]

/-- Around the clients of the connection on `fd` the others stay as they are. -/
theorem flatMap_updateConnection {cons : List Connection}
    (h : ∃ con ∈ cons, con.clientFd = fd) : ∃ before after,
      cons.flatMap (·.clients) = before ++ clientsOn fd cons ++ after
        ∧ ∀ f, (updateConnection fd f cons).flatMap (·.clients)
          = before ++ f (clientsOn fd cons) ++ after := by
  induction cons with
  | nil =>
    obtain ⟨con, hcon, -⟩ := h
    exact absurd hcon List.not_mem_nil
  | cons con cons ih =>
    by_cases hfd : con.clientFd = fd
    · refine ⟨[], cons.flatMap (·.clients), ?_, fun f => ?_⟩
      · simp [clientsOn, hfd]
      · simp [clientsOn, updateConnection, hfd]
    · have hon : clientsOn fd (con :: cons) = clientsOn fd cons := by simp [clientsOn, hfd]
      obtain ⟨before, after, hall, hupdate⟩ := ih (exists_of_cons hfd h)
      refine ⟨con.clients ++ before, after, ?_, fun f => ?_⟩
      · rw [List.flatMap_cons, hall, hon]
        simp only [List.append_assoc]
      · rw [updateConnection, if_neg hfd, List.flatMap_cons, hupdate, hon]
        simp only [List.append_assoc]

end Connections

structure Tidy (clients : List Client) (clientBitmap portBitmap : ℕ → ℕ) : Prop where
  nodup : (clients.map (·.ClientId)).Nodup
  bound : ∀ c ∈ clients, 1 ≤ c.ClientId ∧ c.ClientId < sizeofClientBitmap
  port : ∀ c ∈ clients, c.portId = c.ClientId
  clientMarks : clientBitmap = marks (clients.map (·.ClientId))
  portMarks : portBitmap = marks (clients.map (·.ClientId))

abbrev State.Tidy (s : State) : Prop := QrtrProxy.Tidy s.clients s.clientBitmap s.portBitmap

theorem tidy_init : State.init.Tidy where
  nodup := List.nodup_nil
  bound := fun _ hc => absurd hc List.not_mem_nil
  port := fun _ hc => absurd hc List.not_mem_nil
  clientMarks := by
    funext id
    simp [State.init, State.clients, marks]
  portMarks := by
    funext id
    simp [State.init, State.clients, marks]

theorem Tidy.perm {clients clients' : List Client} {cb pb : ℕ → ℕ} (h : Tidy clients cb pb)
    (hperm : clients'.Perm clients) : Tidy clients' cb pb where
  nodup := (hperm.map _).nodup_iff.2 h.nodup
  bound := fun c hc => h.bound c (hperm.subset hc)
  port := fun c hc => h.port c (hperm.subset hc)
  clientMarks := h.clientMarks.trans (marks_congr fun _ => (hperm.map _).symm.mem_iff)
  portMarks := h.portMarks.trans (marks_congr fun _ => (hperm.map _).symm.mem_iff)

theorem Tidy.cons {clients : List Client} {cb pb : ℕ → ℕ} (h : Tidy clients cb pb) {c : Client}
    (hpos : 1 ≤ c.ClientId) (hlt : c.ClientId < sizeofClientBitmap) (hport : c.portId = c.ClientId)
    (hfresh : c.ClientId ∉ clients.map (·.ClientId)) :
    Tidy (clients ++ [c]) (marks (clients.map (·.ClientId) ++ [c.ClientId]))
      (marks (clients.map (·.ClientId) ++ [c.ClientId])) where
  nodup := by
    rw [List.map_append, List.map_singleton]
    exact List.nodup_append.2 ⟨h.nodup, List.nodup_singleton _, fun a ha b hb hab => by
      rw [List.mem_singleton.1 hb] at hab
      exact hfresh (hab ▸ ha)⟩
  bound := fun c' hc => by
    rcases List.mem_append.1 hc with hc | hc
    · exact h.bound c' hc
    · rw [List.mem_singleton.1 hc]
      exact ⟨hpos, hlt⟩
  port := fun c' hc => by
    rcases List.mem_append.1 hc with hc | hc
    · exact h.port c' hc
    · rw [List.mem_singleton.1 hc]
      exact hport
  clientMarks := by rw [List.map_append, List.map_singleton]
  portMarks := by rw [List.map_append, List.map_singleton]

/-- A client is made while an id is free. -/
theorem tidy_allocQrtrClientId {s : State} {fd : ℤ} (h : s.Tidy) (hfree : HasFreeId s)
    (hcon : ∃ con ∈ s.connections, con.clientFd = fd) (QMIType : ℕ) :
    (allocQrtrClientId s fd QMIType).2.Tidy
      ∧ 1 ≤ (allocQrtrClientId s fd QMIType).1 ∧ (allocQrtrClientId s fd QMIType).1 < 256 := by
  unfold HasFreeId at hfree
  rw [h.clientMarks] at hfree
  obtain ⟨id, hpos, hlt, hfresh, hfind, hclient⟩ := allocId_marks hfree (Nat.le_refl _)
  obtain ⟨id', -, -, -, hfind', hport⟩ :=
    allocId_marks hfree (show sizeofClientBitmap ≤ sizeofPortBitmap by decide)
  obtain rfl : id = id' := Option.some.inj (hfind.symm.trans hfind')
  have hbyte : id % 256 = id := Nat.mod_eq_of_lt (Nat.lt_trans hlt (by decide))
  have hc : allocClientId s.clientBitmap = _ := h.clientMarks ▸ hclient
  have hp : allocPortId s.portBitmap = _ := h.portMarks ▸ hport
  unfold allocQrtrClientId
  rw [hc, hp]
  dsimp only
  rw [hbyte]
  refine ⟨?_, hpos, Nat.lt_trans hlt (by decide)⟩
  have hnew := h.cons (c := ⟨QMIType, id, 1, id⟩) hpos hlt rfl hfresh
  refine hnew.perm ?_
  obtain ⟨before, after, hall, hupdate⟩ := flatMap_updateConnection hcon
  simp only [State.clients]
  rw [hupdate, hall]
  simp only [List.append_assoc]
  refine (List.Perm.refl before).append ?_
  refine (List.Perm.refl _).append ?_
  exact List.perm_append_comm

theorem perm_cons_eraseP {p : Client → Bool} {c : Client} {l : List Client}
    (h : l.find? p = some c) : (c :: l.eraseP p).Perm l := by
  obtain ⟨hc, as, bs, rfl, has⟩ := List.find?_eq_some_iff_append.1 h
  have herase : (as ++ c :: bs).eraseP p = as ++ bs := by
    rw [List.eraseP_append_right _ fun a ha => by simpa using has a ha, List.eraseP_cons_of_pos hc]
  rw [herase]
  exact List.perm_middle.symm

theorem exists_connection_of_mem {fd : ℤ} {cons : List Connection} {c : Client}
    (h : c ∈ clientsOn fd cons) : ∃ con ∈ cons, con.clientFd = fd := by
  unfold clientsOn at h
  split at h
  · rename_i con hcon
    exact ⟨con, List.mem_of_find?_eq_some hcon, by simpa using List.find?_some hcon⟩
  · exact absurd h List.not_mem_nil

theorem tidy_releaseQrtrClientId {s : State} (h : s.Tidy) (fd : ℤ) (QMIType ClientId : ℕ) :
    (releaseQrtrClientId s fd QMIType ClientId).1.Tidy := by
  unfold releaseQrtrClientId
  split
  · exact h
  · rename_i c hfind
    have hcon := exists_connection_of_mem (List.mem_of_find?_eq_some hfind)
    obtain ⟨before, after, hall, hupdate⟩ := flatMap_updateConnection hcon
    set clients' := (updateConnection fd (·.eraseP (·.Is QMIType ClientId)) s.connections).flatMap
      (·.clients) with hclients'
    have hperm : (c :: clients').Perm s.clients := by
      rw [hclients', State.clients, hupdate, hall, List.append_assoc, List.append_assoc]
      refine List.perm_middle.symm.trans ((List.Perm.refl before).append ?_)
      exact (perm_cons_eraseP hfind).append_right after
    have hall' : Tidy (c :: clients') s.clientBitmap s.portBitmap := h.perm hperm
    have hc := hall'.bound c List.mem_cons_self
    have hport := hall'.port c List.mem_cons_self
    have hids : (c.ClientId :: clients'.map (·.ClientId)).Perm (s.clients.map (·.ClientId)) :=
      hperm.map _
    have hclient : freeClientId s.clientBitmap c.ClientId = marks (clients'.map (·.ClientId)) := by
      rw [h.clientMarks]
      exact freeId_marks h.nodup hids hc.2
    have hportFree : freePortId s.portBitmap c.portId = marks (clients'.map (·.ClientId)) := by
      rw [h.portMarks, hport]
      exact freeId_marks h.nodup hids (Nat.lt_trans hc.2 (by decide))
    exact ⟨(List.nodup_cons.1 hall'.nodup).2,
      fun c' hc' => hall'.bound c' (List.mem_cons_of_mem c hc'),
      fun c' hc' => hall'.port c' (List.mem_cons_of_mem c hc'), hclient, hportFree⟩

theorem fds_releaseQrtrClientId (s : State) (fd : ℤ) (QMIType ClientId : ℕ) :
    (releaseQrtrClientId s fd QMIType ClientId).1.connections.map (·.clientFd)
      = s.connections.map (·.clientFd) := by
  unfold releaseQrtrClientId
  split
  · rfl
  · exact fds_updateConnection s.connections

/-- Releasing the first client of a connection leaves the others. -/
theorem clientsOn_release_head {s : State} {fd : ℤ} {c : Client} {cs : List Client}
    (h : clientsOn fd s.connections = c :: cs) :
    clientsOn fd (releaseQrtrClientId s fd c.QMIType c.ClientId).1.connections = cs := by
  have hself : c.Is c.QMIType c.ClientId := ⟨rfl, rfl⟩
  have hcon : ∃ con ∈ s.connections, con.clientFd = fd :=
    exists_connection_of_mem (h ▸ List.mem_cons_self)
  unfold releaseQrtrClientId
  rw [h, List.find?_cons_of_pos (by simpa using hself)]
  dsimp only
  rw [clientsOn_updateConnection hcon, h, List.eraseP_cons_of_pos (by simpa using hself)]

theorem releaseAll_spec (fd : ℤ) (n : ℕ) {s : State} (h : s.Tidy)
    (hn : (clientsOn fd s.connections).length ≤ n) :
    (releaseAll fd n s).1.Tidy ∧ clientsOn fd (releaseAll fd n s).1.connections = []
      ∧ (releaseAll fd n s).1.connections.map (·.clientFd) = s.connections.map (·.clientFd) := by
  induction n generalizing s with
  | zero => exact ⟨h, List.length_eq_zero_iff.1 (Nat.le_zero.1 hn), rfl⟩
  | succ n ih =>
    rcases hclients : clientsOn fd s.connections with _ | ⟨c, cs⟩
    · have hdone : releaseAll fd (n + 1) s = (s, []) := by rw [releaseAll, hclients]
      rw [hdone]
      exact ⟨h, hclients, rfl⟩
    · have hnext : (releaseAll fd (n + 1) s).1
          = (releaseAll fd n (releaseQrtrClientId s fd c.QMIType c.ClientId).1).1 := by
        rw [releaseAll, hclients]
      have hlength : (clientsOn fd
          (releaseQrtrClientId s fd c.QMIType c.ClientId).1.connections).length ≤ n := by
        rw [clientsOn_release_head hclients]
        rw [hclients, List.length_cons] at hn
        omega
      obtain ⟨htidy, hempty, hfds⟩ := ih (tidy_releaseQrtrClientId h fd _ _) hlength
      rw [hnext]
      exact ⟨htidy, hempty, hfds.trans (fds_releaseQrtrClientId s fd _ _)⟩

/-- A connection without clients leaves with none. -/
theorem flatMap_eraseP_connection {fd : ℤ} {cons : List Connection} (h : clientsOn fd cons = []) :
    (cons.eraseP (·.clientFd = fd)).flatMap (·.clients) = cons.flatMap (·.clients) := by
  induction cons with
  | nil => rfl
  | cons con cons ih =>
    by_cases hfd : con.clientFd = fd
    · have hnone : con.clients = [] := by simpa [clientsOn, hfd] using h
      rw [List.eraseP_cons_of_pos (by simpa using hfd), List.flatMap_cons, hnone, List.nil_append]
    · have hrest : clientsOn fd cons = [] := by simpa [clientsOn, hfd] using h
      rw [List.eraseP_cons_of_neg (by simpa using hfd), List.flatMap_cons, List.flatMap_cons,
        ih hrest]

theorem tidy_cleanupQrtrConnection {s : State} (h : s.Tidy) (fd : ℤ) :
    (cleanupQrtrConnection s fd).1.Tidy := by
  unfold cleanupQrtrConnection
  split_ifs
  · obtain ⟨htidy, hempty, -⟩ := releaseAll_spec fd _ h (Nat.le_refl _)
    refine htidy.perm ?_
    simp only [State.clients]
    rw [flatMap_eraseP_connection hempty]
  · exact h

theorem length_cleanupQrtrConnection {s : State} (h : s.Tidy) {con : Connection}
    (hcon : con ∈ s.connections) :
    (cleanupQrtrConnection s con.clientFd).1.connections.length + 1 = s.connections.length := by
  have hany : s.connections.any (·.clientFd = con.clientFd) :=
    List.any_eq_true.2 ⟨con, hcon, by simp⟩
  unfold cleanupQrtrConnection
  rw [if_pos hany]
  dsimp only
  obtain ⟨-, -, hfds⟩ := releaseAll_spec con.clientFd _ h (Nat.le_refl _)
  set r := (releaseAll con.clientFd (clientsOn con.clientFd s.connections).length s).1
  have hmem : con.clientFd ∈ r.connections.map (·.clientFd) := hfds ▸ List.mem_map_of_mem hcon
  obtain ⟨con', hcon', hfd⟩ := List.mem_map.1 hmem
  have hlength : r.connections.length = s.connections.length := by
    simpa using congrArg List.length hfds
  rw [List.length_eraseP_of_mem hcon' (by simpa using hfd), ← hlength]
  have hpos := List.length_pos_of_mem hcon'
  omega

theorem cleanupAll_spec (n : ℕ) {s : State} (h : s.Tidy) (hn : s.connections.length ≤ n) :
    (cleanupAll n s).1.Tidy ∧ (cleanupAll n s).1.connections = [] := by
  induction n generalizing s with
  | zero => exact ⟨h, List.length_eq_zero_iff.1 (Nat.le_zero.1 hn)⟩
  | succ n ih =>
    rcases hcons : s.connections with _ | ⟨con, cons⟩
    · have hdone : cleanupAll (n + 1) s = (s, []) := by rw [cleanupAll, hcons]
      rw [hdone]
      exact ⟨h, hcons⟩
    · have hnext : (cleanupAll (n + 1) s).1
          = (cleanupAll n (cleanupQrtrConnection s con.clientFd).1).1 := by
        rw [cleanupAll, hcons]
      have hlength := length_cleanupQrtrConnection h (hcons ▸ List.mem_cons_self)
      rw [hnext]
      exact ih (tidy_cleanupQrtrConnection h con.clientFd) (by omega)

/-! ## Steps and runs -/

theorem exists_connection {s : State} {fd : ℤ} {con : Connection}
    (h : s.connections.find? (·.clientFd = fd) = some con) :
    ∃ con ∈ s.connections, con.clientFd = fd :=
  ⟨con, List.mem_of_find?_eq_some h, by simpa using List.find?_some h⟩

theorem tidy_getClientIdReq {s : State} {fd : ℤ} {pQMI : Bytes} (h : s.Tidy)
    (hok : (findQrtrService s (ctlGetReqType pQMI)).isSome → HasFreeId s)
    (hcon : ∃ con ∈ s.connections, con.clientFd = fd) : (getClientIdReq s fd pQMI).1.Tidy := by
  unfold getClientIdReq
  dsimp only
  split_ifs with hsome
  · exact (tidy_allocQrtrClientId h (hok hsome) hcon _).1
  · exact h

theorem tidy_recvQmiFromClient {s : State} {fd : ℤ} {pQMI : Bytes} {allocated : Bool} (h : s.Tidy)
    (hok : Supplied s (.client fd pQMI allocated)) :
    (recvQmiFromClient s pQMI fd allocated).1.Tidy := by
  unfold recvQmiFromClient
  split
  · exact h
  · rename_i con hcon
    split_ifs with hctl hsync hget halloc hrelease
    · exact h
    · exact tidy_getClientIdReq h (hok ⟨hctl, hget⟩) (exists_connection hcon)
    · exact h
    · exact tidy_releaseQrtrClientId h fd _ _
    · exact h
    · exact h
    · exact h
    · exact h

theorem tidy_recvQrtrFromDev {s : State} (h : s.Tidy) (hdr : Bytes) (allocated : Bool) :
    (recvQrtrFromDev s hdr allocated).1.Tidy := by
  unfold recvQrtrFromDev
  split_ifs
  · exact h
  · unfold handleServerChange
    split_ifs
    · exact h
    · exact h
    · exact h
  · exact h
  · exact h

theorem tidy_step {s s' : State} {i : Input} (h : s.Tidy) (hok : Supplied s i)
    (hs' : step s i = some s') : s'.Tidy := by
  cases hs'
  cases i with
  | accept fd allocated =>
    change (acceptQrtrConnection s fd allocated).Tidy
    unfold acceptQrtrConnection
    split_ifs
    · refine h.perm ?_
      simp [State.clients]
    · exact h
  | client fd pQMI allocated => exact tidy_recvQmiFromClient h hok
  | hangup fd => exact tidy_cleanupQrtrConnection h fd
  | device hdr allocated => exact tidy_recvQrtrFromDev h hdr allocated
  | reopen =>
    obtain ⟨htidy, hempty⟩ := cleanupAll_spec s.connections.length h (Nat.le_refl _)
    refine htidy.perm ?_
    simp only [State.clients, hempty]
    exact .refl _

theorem State.Tidy.consistent {s : State} (h : s.Tidy) : Consistent s := by
  have hports : s.clients.map (·.portId) = s.clients.map (·.ClientId) :=
    List.map_congr_left h.port
  have hmarks : ∀ id, marks (s.clients.map (·.ClientId)) id ≠ 0
      ↔ ∃ c ∈ s.clients, c.ClientId = id := by
    intro id
    rw [← List.mem_map]
    unfold marks
    split_ifs with hid
    · obtain ⟨c, hc, rfl⟩ := List.mem_map.1 hid
      have hpos := (h.bound c hc).1
      simp only [hid, iff_true]
      omega
    · simp [hid]
  refine ⟨h.nodup, fun c hc => ?_, hports ▸ h.nodup, fun c hc => ?_, fun id _ => ?_, fun id _ => ?_,
    fun hempty id => ?_⟩
  · have := (h.bound c hc).1
    omega
  · have := (h.bound c hc).1
    have := h.port c hc
    omega
  · rw [h.clientMarks]
    exact hmarks id
  · rw [h.portMarks, hmarks id]
    exact exists_congr fun c => and_congr_right fun hc => by rw [h.port c hc]
  · have hnone : s.clients = [] := by rw [State.clients, hempty]; rfl
    rw [h.clientMarks, h.portMarks, hnone]
    exact ⟨rfl, rfl⟩

theorem ctlResult_ctlResponse (pQMI : Bytes) (result error : ℕ) (parameter : Bytes) :
    ctlResult (ctlResponse pQMI result error parameter) = result % 2 ^ 16 := by
  simp only [ctlResult, ctlResponse, tlv, ofLe16, le16, u8, List.cons_append, List.nil_append,
    List.getD_cons_succ, List.getD_cons_zero, UInt8.toNat_ofNat']
  omega

/-- A request that is refused is one for a service that was not announced. -/
theorem unchanged_of_refused {s : State} {i : Input} (h : s.Tidy) (hok : Supplied s i)
    (href : Refused s i) : (handle s i).1 = s := by
  obtain ⟨fd, pQMI, allocated, rsp, rfl, hget, hrsp, hresult⟩ := href
  change (recvQmiFromClient s pQMI fd allocated).1 = s
  change _ ∈ (recvQmiFromClient s pQMI fd allocated).2 at hrsp
  unfold recvQmiFromClient at hrsp ⊢
  split at hrsp
  · rfl
  · rename_i con hcon
    rw [if_pos hget.1, if_neg (by rw [hget.2]; decide), if_pos hget.2] at hrsp ⊢
    split_ifs at hrsp ⊢
    · unfold getClientIdReq at hrsp ⊢
      dsimp only at hrsp ⊢
      by_cases hsome : (findQrtrService s (ctlGetReqType pQMI)).isSome
      · have hid := (tidy_allocQrtrClientId h (hok hget hsome) (exists_connection hcon)
          (ctlGetReqType pQMI)).2.1
        rw [if_pos hsome] at hrsp
        cases List.mem_singleton.1 hrsp
        rw [ctlResult_ctlResponse, if_neg (by omega)] at hresult
        exact absurd rfl hresult
      · rw [if_neg hsome]
    · rfl

/-- In every run in which no client id is asked for when all are in use, the ids and ports of the
clients are distinct and marked, and a request that is refused leaves everything as it was. -/
theorem consistent_of_supplied (is : List Input) (s : State)
    (hok : Runs.Meets step Supplied .init is) (h : exec .init is = some s) :
    Consistent s ∧ ∀ i, Supplied s i → Refused s i → (handle s i).1 = s := by
  have htidy : s.Tidy := Runs.exec_inv (fun _ _ _ hI ho hs => tidy_step hI ho hs) tidy_init hok h
  exact ⟨htidy.consistent, fun i hi href => unchanged_of_refused htidy hi href⟩

/-- `QMICTL_GET_CLIENT_ID_REQ` for service 1. -/
def getClientIdMsg : Bytes :=
  [0x01, 0x0F, 0x00, 0x00, 0x00, 0x00, 0x00, 0x01, 0x22, 0x00, 0x04, 0x00, 0x01, 0x01, 0x00, 0x01]

/-- `QMICTL_RELEASE_CLIENT_ID_REQ` for the client 1 of service 1. -/
def releaseClientIdMsg : Bytes :=
  [0x01, 0x10, 0x00, 0x00, 0x00, 0x00, 0x00, 0x02, 0x23, 0x00, 0x05, 0x00, 0x01, 0x02, 0x00, 0x01,
    0x01]

/-- Two clients ask for an id, the first gives its id back, and the second asks once more. -/
def twoClients : List Input :=
  [.device (serverChange QRTR_TYPE_NEW_SERVER) true, .accept 5 true, .client 5 getClientIdMsg true,
    .accept 6 true, .client 6 getClientIdMsg true, .client 5 releaseClientIdMsg true,
    .client 6 getClientIdMsg true]

instance (s : State) : Decidable (HasFreeId s) :=
  inferInstanceAs (Decidable (∃ id ∈ List.range' 1 (sizeofClientBitmap - 1), s.clientBitmap id = 0))

instance (s : State) : ∀ i, Decidable (Supplied s i)
  | .client _ pQMI _ => inferInstanceAs (Decidable
      (hdrQMIType pQMI = QMUX_TYPE_CTL ∧ ctlType pQMI = QMICTL_GET_CLIENT_ID_REQ →
        (findQrtrService s (ctlGetReqType pQMI)).isSome → HasFreeId s))
  | .accept _ _ | .hangup _ | .device _ _ | .reopen => .isTrue trivial

theorem consistent_twoClients : ∃ s, exec .init twoClients = some s
    ∧ s.connections = [⟨5, []⟩, ⟨6, [⟨1, 2, 1, 2⟩, ⟨1, 1, 1, 1⟩]⟩] ∧ Consistent s :=
  ⟨_, rfl, by decide,
    (consistent_of_supplied twoClients _ (by decide +kernel) rfl).1⟩

/-! ## A client too many -/

theorem find?_marks_range' {size n : ℕ} (hn : n + 1 < size) :
    (List.range' 1 (size - 1)).find? (fun id => marks (List.range' 1 n) id = 0)
      = some (n + 1) := by
  have hsplit : List.range' 1 (size - 1)
      = List.range' 1 n ++ (n + 1) :: List.range' (n + 2) (size - 2 - n) := by
    rw [show n + 2 = n + 1 + 1 from rfl, ← List.range'_succ, Nat.add_comm n 1,
      List.range'_append_1]
    congr 1
    omega
  have hnone : (List.range' 1 n).find? (fun id => marks (List.range' 1 n) id = 0) = none := by
    refine List.find?_eq_none.2 fun id hid => ?_
    have hpos := (List.mem_range'_1.1 hid).1
    simpa [marks, hid] using Nat.ne_of_gt hpos
  have hfree : marks (List.range' 1 n) (n + 1) = 0 := by
    rw [marks_eq_zero (by omega), List.mem_range'_1]
    omega
  rw [hsplit, List.find?_append, hnone, Option.none_or,
    List.find?_cons_of_pos (by simpa using hfree)]

theorem allocId_marks_range' {size n : ℕ} (hn : n + 1 < size) (hbyte : n + 1 < 256) :
    allocId size (marks (List.range' 1 n)) = (n + 1, marks (List.range' 1 (n + 1))) := by
  unfold allocId
  rw [find?_marks_range' hn]
  refine Prod.ext rfl ?_
  funext id
  have hmem : id ∈ List.range' 1 (n + 1) ↔ id = n + 1 ∨ id ∈ List.range' 1 n := by
    simp only [List.mem_range'_1]
    omega
  by_cases hid : id = n + 1
  · subst hid
    simp [marks, Nat.mod_eq_of_lt hbyte]
  · simp [marks, hid, hmem]

/-- One connection has the first `n` ids. -/
def holding (n : ℕ) : State :=
  ⟨[announced (serverChange QRTR_TYPE_NEW_SERVER)],
    [⟨5, (List.range' 1 n).map fun id => ⟨1, id, 1, id⟩⟩],
    marks (List.range' 1 n), marks (List.range' 1 n)⟩

theorem handle_holding (n : ℕ) : (handle (holding n) (.client 5 getClientIdMsg true)).1
    = (allocQrtrClientId (holding n) 5 1).2 := rfl

theorem step_holding {n : ℕ} (hn : n < 239) :
    step (holding n) (.client 5 getClientIdMsg true) = some (holding (n + 1)) := by
  have hc : allocClientId (holding n).clientBitmap = _ :=
    allocId_marks_range' (show n + 1 < sizeofClientBitmap by unfold sizeofClientBitmap; omega)
      (by omega)
  have hp : allocPortId (holding n).portBitmap = _ :=
    allocId_marks_range' (show n + 1 < sizeofPortBitmap by unfold sizeofPortBitmap; omega)
      (by omega)
  have hlast : List.range' 1 (n + 1) = List.range' 1 n ++ [n + 1] := by
    rw [List.range'_1_concat, Nat.add_comm 1 n]
  unfold step
  rw [handle_holding, allocQrtrClientId, hc, hp]
  simp [holding, updateConnection, hlast, Nat.mod_eq_of_lt (show n + 1 < 256 by omega)]

theorem exec_holding (is : List Input) : ∀ (k n : ℕ), n + k ≤ 239 →
    exec (holding n) (List.replicate k (.client 5 getClientIdMsg true) ++ is)
      = exec (holding (n + k)) is
  | 0, _, _ => rfl
  | k + 1, n, h => by
    rw [List.replicate_succ, List.cons_append]
    change (step (holding n) _).bind _ = _
    rw [step_holding (by omega), Option.bind_some]
    have hrest := exec_holding is k (n + 1) (by omega)
    rwa [Nat.add_right_comm, Nat.add_assoc] at hrest

theorem exec_holding_zero (is : List Input) :
    exec .init (.device (serverChange QRTR_TYPE_NEW_SERVER) true :: .accept 5 true :: is)
      = exec (holding 0) is := by
  have hmarks : marks [] = fun _ => 0 := by
    funext id
    simp [marks]
  have hzero : holding 0 = ⟨[announced (serverChange QRTR_TYPE_NEW_SERVER)], [⟨5, []⟩], fun _ => 0,
      fun _ => 0⟩ := by
    unfold holding
    rw [← hmarks]
    rfl
  rw [hzero]
  rfl

/-- All 239 ids are in use and one more client asks for one: it is refused, and has the id 0 from
then on. -/
theorem not_consistent_exhausted : ∃ is s, exec .init is = some s ∧ ¬ Consistent s := by
  refine ⟨.device (serverChange QRTR_TYPE_NEW_SERVER) true :: .accept 5 true ::
    (List.replicate 239 (.client 5 getClientIdMsg true) ++ [.client 5 getClientIdMsg true]),
    (allocQrtrClientId (holding 239) 5 1).2, ?_, fun h => ?_⟩
  · rw [exec_holding_zero, exec_holding _ 239 0 (Nat.le_refl _), Nat.zero_add]
    change some (handle (holding 239) _).1 = _
    rw [handle_holding]
  · have hnone : (List.range' 1 (sizeofClientBitmap - 1)).find?
        (fun id => marks (List.range' 1 239) id = 0) = none := by
      refine List.find?_eq_none.2 fun id hid => ?_
      have hpos := (List.mem_range'_1.1 hid).1
      have hid' : id ∈ List.range' 1 239 := hid
      simpa [marks, hid'] using Nat.ne_of_gt hpos
    have hid : (allocClientId (holding 239).clientBitmap).1 = 0 := by
      change (allocId sizeofClientBitmap (marks (List.range' 1 239))).1 = 0
      unfold allocId
      rw [hnone]
    refine h.clientIds_ne ⟨1, (allocClientId (holding 239).clientBitmap).1 % 256, 1,
      (allocPortId (holding 239).portBitmap).1⟩ ?_ (by rw [hid])
    simp [allocQrtrClientId, State.clients, holding, updateConnection]

end QrtrProxy

end BananaWrt
