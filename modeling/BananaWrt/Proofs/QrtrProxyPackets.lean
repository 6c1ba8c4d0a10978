import BananaWrt.Proofs.QmiMsg
import BananaWrt.Proofs.QrtrProxyIds
import BananaWrt.QrtrProxyPackets
import Mathlib.Data.List.TakeDrop

/-!
# What the QRTR proxy takes out of a message and puts into one

Every client record that a run makes has fields in range (`allSized_exec`), so what is written of
them can be read back. `enqueueFrom_eq` is where a short message goes wrong, `packets_iff` what is
carried in both directions.
-/

namespace BananaWrt

namespace QrtrProxy

open Bytes Qmi Runs

/-- The fields of a client record are in range, and its node is the proxy's. -/
structure Client.Sized (c : Client) : Prop where
  type : c.QMIType < 256
  id : c.ClientId < 256
  node : c.nodeId = nodeMyself
  port : c.portId < 2 ^ 32

def AllSized (cons : List Connection) : Prop := ∀ con ∈ cons, ∀ c ∈ con.clients, c.Sized

theorem mem_updateConnection {fd : ℤ} {f : List Client → List Client} {con : Connection} :
    ∀ {cons : List Connection}, con ∈ updateConnection fd f cons →
      con ∈ cons ∨ ∃ con' ∈ cons, con.clients = f con'.clients
  | [], h => absurd h List.not_mem_nil
  | con' :: cons, h => by
    unfold updateConnection at h
    split_ifs at h with hfd
    · rcases List.mem_cons.1 h with rfl | h
      · exact .inr ⟨con', List.mem_cons_self, rfl⟩
      · exact .inl (List.mem_cons_of_mem _ h)
    · rcases List.mem_cons.1 h with rfl | h
      · exact .inl List.mem_cons_self
      · rcases mem_updateConnection h with hmem | ⟨con'', hmem, heq⟩
        · exact .inl (List.mem_cons_of_mem _ hmem)
        · exact .inr ⟨con'', List.mem_cons_of_mem _ hmem, heq⟩

theorem AllSized.update {cons : List Connection} {f : List Client → List Client} (fd : ℤ)
    (h : AllSized cons) (hf : ∀ l : List Client, ∀ c ∈ f l, c ∈ l ∨ c.Sized) :
    AllSized (updateConnection fd f cons) := by
  intro con hcon c hc
  rcases mem_updateConnection hcon with hcon | ⟨con', hcon', heq⟩
  · exact h con hcon c hc
  · rw [heq] at hc
    exact (hf _ c hc).elim (h con' hcon' c) id

theorem allocId_lt {size : ℕ} (hsize : 0 < size) (bitmap : ℕ → ℕ) :
    (allocId size bitmap).1 < size := by
  unfold allocId
  split
  · rename_i id hid
    have := List.mem_range'_1.1 (List.mem_of_find?_eq_some hid)
    dsimp only
    omega
  · exact hsize

theorem allSized_alloc {s : State} (h : AllSized s.connections) (fd : ℤ) {QMIType : ℕ}
    (ht : QMIType < 256) : AllSized (allocQrtrClientId s fd QMIType).2.connections := by
  have hport : (allocPortId s.portBitmap).1 < sizeofPortBitmap := allocId_lt (by decide) _
  refine h.update fd fun l c hc => ?_
  rcases List.mem_append.1 hc with hc | hc
  · exact .inl hc
  · obtain rfl := List.mem_singleton.1 hc
    exact .inr ⟨ht, Nat.mod_lt _ (by decide), rfl, Nat.lt_trans hport (by decide)⟩

theorem allSized_release {s : State} (h : AllSized s.connections) (fd : ℤ)
    (QMIType ClientId : ℕ) :
    AllSized (releaseQrtrClientId s fd QMIType ClientId).1.connections := by
  unfold releaseQrtrClientId
  split
  · exact h
  · exact h.update fd fun _ _ hc => .inl (List.mem_of_mem_eraseP hc)

theorem allSized_releaseAll (fd : ℤ) : ∀ (n : ℕ) {s : State}, AllSized s.connections →
    AllSized (releaseAll fd n s).1.connections
  | 0, _, h => h
  | n + 1, s, h => by
    unfold releaseAll
    split
    · exact h
    · exact allSized_releaseAll fd n (allSized_release h fd _ _)

theorem allSized_cleanup {s : State} (h : AllSized s.connections) (fd : ℤ) :
    AllSized (cleanupQrtrConnection s fd).1.connections := by
  unfold cleanupQrtrConnection
  split_ifs
  · exact fun con hcon => allSized_releaseAll fd _ h con (List.mem_of_mem_eraseP hcon)
  · exact h

theorem allSized_recvQmi {s : State} (h : AllSized s.connections) (pQMI : Bytes) (fd : ℤ)
    (allocated : Bool) : AllSized (recvQmiFromClient s pQMI fd allocated).1.connections := by
  unfold recvQmiFromClient
  split
  · exact h
  · split_ifs
    · exact h
    · unfold getClientIdReq
      dsimp only
      split_ifs
      · exact allSized_alloc h fd (u8_lt _ _)
      · exact h
    · exact h
    · exact allSized_release h fd _ _
    · exact h
    · exact h
    · exact h
    · exact h

theorem connections_recvQrtr (s : State) (hdr : Bytes) (allocated : Bool) :
    (recvQrtrFromDev s hdr allocated).1.connections = s.connections := by
  unfold recvQrtrFromDev handleServerChange
  split_ifs <;> rfl

theorem allSized_step (s : State) (i : Input) (s' : State) (h : AllSized s.connections)
    (hs : step s i = some s') : AllSized s'.connections := by
  obtain rfl := Option.some.inj hs
  cases i with
  | accept fd allocated =>
    unfold handle acceptQrtrConnection
    dsimp only
    split_ifs
    · intro con hcon c hc
      rcases List.mem_append.1 hcon with hcon | hcon
      · exact h con hcon c hc
      · obtain rfl := List.mem_singleton.1 hcon
        exact absurd hc List.not_mem_nil
    · exact h
  | client fd pQMI allocated => exact allSized_recvQmi h pQMI fd allocated
  | hangup fd => exact allSized_cleanup h fd
  | device hdr allocated => exact (connections_recvQrtr s hdr allocated).symm ▸ h
  | reopen => exact fun _ hcon => absurd hcon List.not_mem_nil

theorem allSized_exec {is : List Input} {s : State} (h : exec .init is = some s) :
    AllSized s.connections :=
  exec_keeps allSized_step (fun _ hcon => absurd hcon List.not_mem_nil) h

theorem le32_here (v : ℕ) (b : Bytes) : le32 (ofLe32 v ++ b) 0 = v % 2 ^ 32 :=
  (le32_append_left (Nat.le_refl 4)).trans (le32_ofLe32 v)

theorem le32_skip (v : ℕ) (b : Bytes) (i : ℕ) : le32 (ofLe32 v ++ b) (4 + i) = le32 b i :=
  (le32_append_right (Nat.le_add_right 4 i)).trans (congrArg (le32 b) (Nat.add_sub_cancel_left ..))

/-- The fields of a packet that is sent, and what is behind them. -/
theorem enqueue_fields (data : Bytes) (type : ℕ) (src dst : Addr) :
    hdrType (enqueue data type src dst) = type % 2 ^ 32
      ∧ srcNodeId (enqueue data type src dst) = src.node % 2 ^ 32
      ∧ srcPortId (enqueue data type src dst) = src.port % 2 ^ 32
      ∧ hdrSize (enqueue data type src dst) = data.length % 2 ^ 32
      ∧ (enqueue data type src dst).drop sizeofQrtrHdr
        = data ++ List.replicate (align4 data.length - data.length) 0 := by
  refine ⟨?_, ?_, ?_, ?_, rfl⟩
  all_goals
    unfold enqueue
    simp only [List.append_assoc]
  · exact (le32_skip _ _ 0).trans (le32_here _ _)
  · exact (le32_skip _ _ 4).trans ((le32_skip _ _ 0).trans (le32_here _ _))
  · exact (le32_skip _ _ 8).trans ((le32_skip _ _ 4).trans
      ((le32_skip _ _ 0).trans (le32_here _ _)))
  · exact (le32_skip _ _ 16).trans ((le32_skip _ _ 12).trans ((le32_skip _ _ 8).trans
      ((le32_skip _ _ 4).trans ((le32_skip _ _ 0).trans (le32_here _ _)))))

theorem carried_enqueue {c : Client} (hc : c.Sized) {data : Bytes} (hdata : data.length < 2 ^ 32)
    (dst : Addr) : Carried (enqueue data QRTR_TYPE_DATA ⟨c.nodeId, c.portId⟩ dst) c data := by
  obtain ⟨htype, hnode, hport, hsize, hdrop⟩ :=
    enqueue_fields data QRTR_TYPE_DATA ⟨c.nodeId, c.portId⟩ dst
  have hsize' := hsize.trans (Nat.mod_eq_of_lt hdata)
  refine ⟨htype, hnode.trans ?_, hport.trans (Nat.mod_eq_of_lt hc.port), hsize', ?_⟩
  · rw [hc.node]
    rfl
  · unfold payload
    rw [hdrop, hsize', List.take_left]

theorem bodyLength_eq {pQMI : Bytes} (h : 5 ≤ hdrLength pQMI) (hlt : hdrLength pQMI < 2 ^ 16) :
    bodyLength pQMI = hdrLength pQMI - 5 := by
  unfold bodyLength sizeofHdr
  omega

theorem body_eq (pQMI : Bytes) :
    body pQMI = (pQMI.drop sizeofHdr).take (hdrLength pQMI - 5) := by
  unfold body
  rw [List.drop_take]
  rfl

/-- A message that is not shorter than its header is copied as it is; for a shorter one the length
wraps and the copy leaves the packet. -/
theorem enqueueFrom_eq {pQMI : Bytes} (hread : hdrLength pQMI + 1 ≤ pQMI.length) (type : ℕ)
    (src dst : Addr) : enqueueFrom pQMI sizeofHdr (bodyLength pQMI) type src dst
      = if 5 ≤ hdrLength pQMI then some (enqueue (body pQMI) type src dst) else none := by
  have hlt : hdrLength pQMI < 2 ^ 16 := le16_lt pQMI 1
  have hhdr : sizeofQrtrHdr = 32 := rfl
  have hqmi : sizeofHdr = 6 := rfl
  unfold enqueueFrom align4
  by_cases hlen : 5 ≤ hdrLength pQMI
  · rw [body_eq, bodyLength_eq hlen hlt, if_pos hlen]
    exact if_pos (by omega)
  · rw [if_neg hlen]
    unfold bodyLength
    exact if_neg (by omega)

theorem length_body {pQMI : Bytes} (hread : hdrLength pQMI + 1 ≤ pQMI.length) :
    (body pQMI).length = hdrLength pQMI - 5 := by
  have hqmi : sizeofHdr = 6 := rfl
  unfold body
  rw [List.length_drop, List.length_take]
  omega

/-- What is sent for a message, by whether it is for a client and whether it has a whole header. -/
theorem recvQmiChecked_eq {s : State} {fd : ℤ} {pQMI : Bytes}
    (hread : hdrLength pQMI + 1 ≤ pQMI.length) :
    (∀ c, ¬ Addressed s fd pQMI c) ∧ recvQmiChecked s pQMI fd = some []
      ∨ ∃ c dst, Addressed s fd pQMI c ∧ recvQmiChecked s pQMI fd
        = if 5 ≤ hdrLength pQMI then
            some [.dev (enqueue (body pQMI) QRTR_TYPE_DATA ⟨c.nodeId, c.portId⟩ dst)]
          else none := by
  unfold recvQmiChecked Addressed forwardChecked
  rcases hcon : s.connections.find? (·.clientFd = fd) with _ | con
  · simp only [hcon]
    exact .inl ⟨fun c ⟨⟨con, h, _⟩, _⟩ => by simp at h, trivial⟩
  · rcases hc : con.clients.find? (·.Is (hdrQMIType pQMI) (hdrClientId pQMI)) with _ | c
    · simp only [hcon, hc]
      refine .inl ⟨fun c ⟨⟨con', h, h'⟩, _⟩ => ?_, trivial⟩
      obtain rfl := Option.some.inj h
      rw [hc] at h'
      simp at h'
    · rcases hsrv : findQrtrService s (hdrQMIType pQMI) with _ | srv
      · simp only [hcon, hc]
        exact .inl ⟨fun c ⟨_, srv, h, _⟩ => by simp at h, trivial⟩
      · simp only [hcon, hc]
        by_cases hz : srv.service = 0
        · refine .inl ⟨fun c ⟨_, srv', h, hne⟩ => ?_, if_pos hz⟩
          obtain rfl := Option.some.inj h
          exact hne hz
        · refine .inr ⟨c, ⟨srv.node, srv.port⟩, ⟨⟨con, rfl, hc⟩, srv, rfl, hz⟩, ?_⟩
          rw [if_neg hz, enqueueFrom_eq hread]
          split_ifs <;> rfl

theorem mem_of_addressed {s : State} {fd : ℤ} {pQMI : Bytes} {c : Client}
    (h : Addressed s fd pQMI c) : ∃ con ∈ s.connections, con.clientFd = fd ∧ c ∈ con.clients
      ∧ hdrQMIType pQMI = c.QMIType ∧ hdrClientId pQMI = c.ClientId := by
  obtain ⟨⟨con, hcon, hc⟩, -⟩ := h
  have his : c.Is (hdrQMIType pQMI) (hdrClientId pQMI) := by simpa using List.find?_some hc
  exact ⟨con, List.mem_of_find?_eq_some hcon, by simpa using List.find?_some hcon,
    List.mem_of_find?_eq_some hc, his.1, his.2⟩

theorem encapsulated_iff {s : State} {fd : ℤ} {pQMI : Bytes} (hs : AllSized s.connections)
    (hread : hdrLength pQMI + 1 ≤ pQMI.length) :
    Encapsulated s fd pQMI ↔ 5 ≤ hdrLength pQMI ∨ ∀ c, ¬ Addressed s fd pQMI c := by
  rcases recvQmiChecked_eq hread with ⟨hno, hout⟩ | ⟨c, dst, hc, hout⟩
  · exact iff_of_true ⟨[], hout, .inl rfl⟩ (.inr hno)
  · obtain ⟨con, hcon, -, hmem, -⟩ := mem_of_addressed hc
    by_cases hlen : 5 ≤ hdrLength pQMI
    · rw [if_pos hlen] at hout
      refine iff_of_true ⟨_, hout, .inr ⟨c, _, hc, rfl, ?_⟩⟩ (.inl hlen)
      refine carried_enqueue (hs con hcon c hmem) ?_ dst
      have hlt : hdrLength pQMI < 2 ^ 16 := le16_lt pQMI 1
      rw [length_body hread]
      omega
    · rw [if_neg hlen] at hout
      refine iff_of_false (fun ⟨outs, h, _⟩ => ?_) fun h => h.elim hlen fun h => h c hc
      rw [hout] at h
      simp at h

/-- The message for a client that a packet leads to. -/
def clientMsg (hdr : Bytes) (c : Client) : Bytes :=
  [0x01] ++ ofLe16 (hdrSize hdr + sizeofHdr - 1)
    ++ [0x00, UInt8.ofNat c.QMIType, UInt8.ofNat c.ClientId]
    ++ (hdr.drop sizeofQrtrHdr).take (hdrSize hdr)

theorem delivered_clientMsg {hdr : Bytes} {c : Client} (hc : c.Sized)
    (hfit : sizeofQrtrHdr + hdrSize hdr ≤ hdr.length) (hsize : hdrSize hdr < 2 ^ 16 - 5) :
    Delivered (clientMsg hdr c) c (payload hdr) := by
  have hhdr : sizeofQrtrHdr = 32 := rfl
  have hqmi : sizeofHdr = 6 := rfl
  have hpayload : (payload hdr).length = hdrSize hdr := by
    unfold payload
    rw [List.length_take, List.length_drop]
    omega
  have hmsg : (clientMsg hdr c).length = hdrSize hdr + 6 := by
    unfold clientMsg
    rw [List.length_append]
    exact (congrArg (6 + ·) hpayload).trans (Nat.add_comm ..)
  have hlength : hdrLength (clientMsg hdr c) = hdrSize hdr + 5 :=
    Tlv.toNat_ofLe16 (by omega)
  refine ⟨?_, ?_, ?_, ?_⟩
  · exact (UInt8.toNat_ofNat' (n := c.QMIType)).trans (Nat.mod_eq_of_lt hc.type)
  · exact (UInt8.toNat_ofNat' (n := c.ClientId)).trans (Nat.mod_eq_of_lt hc.id)
  · rw [hlength, hmsg]
  · unfold body
    rw [hlength, List.take_of_length_le (by omega)]
    rfl

theorem recvQrtr_data {s : State} {hdr : Bytes} (htype : hdrType hdr = QRTR_TYPE_DATA) :
    (recvQrtrFromDev s hdr true).2 = forwardToClients s hdr true ++ resumeTx hdr := by
  have h1 : QRTR_TYPE_DATA ≠ QRTR_TYPE_HELLO := by decide
  have h2 : ¬ (QRTR_TYPE_DATA = QRTR_TYPE_NEW_SERVER ∨ QRTR_TYPE_DATA = QRTR_TYPE_DEL_SERVER) := by
    decide
  unfold recvQrtrFromDev
  rw [htype, if_neg h1, if_neg h2, if_pos rfl]

/-- A packet goes to every client that has its port, if it is for this node. -/
theorem forwardToClients_eq {s : State} (hs : AllSized s.connections) (hdr : Bytes) :
    forwardToClients s hdr true = if dstNodeId hdr = nodeMyself then
        (holders s (dstPortId hdr)).map fun x => .client x.1 (clientMsg hdr x.2)
      else [] := by
  have hfilter : ∀ con ∈ s.connections,
      (con.clients.filter fun c => c.nodeId = dstNodeId hdr ∧ c.portId = dstPortId hdr)
        = if dstNodeId hdr = nodeMyself then con.clients.filter fun c => c.portId = dstPortId hdr
          else [] := fun con hcon => by
    split_ifs with hn
    · refine List.filter_congr fun c hc => ?_
      simp [(hs con hcon c hc).node, hn]
    · refine List.filter_eq_nil_iff.2 fun c hc => ?_
      simp [(hs con hcon c hc).node, Ne.symm hn]
  unfold forwardToClients holders
  rw [if_pos rfl]
  split_ifs with hn
  · rw [List.map_flatMap]
    refine List.flatMap_congr fun con hcon => ?_
    rw [hfilter con hcon, if_pos hn, List.map_map]
    rfl
  · refine List.flatMap_eq_nil_iff.2 fun con hcon => ?_
    rw [hfilter con hcon, if_neg hn]
    rfl

theorem not_client_resumeTx {hdr msg : Bytes} {fd : ℤ} : .client fd msg ∉ resumeTx hdr := by
  unfold resumeTx
  split_ifs <;> simp

theorem mem_holders {s : State} {port : ℕ} {fd : ℤ} {c : Client} (h : (fd, c) ∈ holders s port) :
    ∃ con ∈ s.connections, c ∈ con.clients := by
  obtain ⟨con, hcon, h⟩ := List.mem_flatMap.1 h
  obtain ⟨c', hc', heq⟩ := List.mem_map.1 h
  obtain ⟨-, rfl⟩ := Prod.mk.inj heq
  exact ⟨con, hcon, (List.mem_filter.1 hc').1⟩

theorem decapsulated_iff {s : State} {hdr : Bytes} {fd : ℤ} {c : Client}
    (hs : AllSized s.connections) (htype : hdrType hdr = QRTR_TYPE_DATA)
    (hfit : sizeofQrtrHdr + hdrSize hdr ≤ hdr.length) (hsize : hdrSize hdr < 2 ^ 16 - 5)
    (hc : holders s (dstPortId hdr) = [(fd, c)]) :
    Decapsulated s hdr fd c ↔ dstNodeId hdr = nodeMyself := by
  have hout := recvQrtr_data (s := s) htype
  rw [forwardToClients_eq hs, hc] at hout
  by_cases hn : dstNodeId hdr = nodeMyself
  · rw [if_pos hn] at hout
    obtain ⟨con, hcon, hmem⟩ := mem_holders (hc ▸ List.mem_singleton_self _)
    exact iff_of_true ⟨_, hout, delivered_clientMsg (hs con hcon c hmem) hfit hsize⟩ hn
  · rw [if_neg hn, List.nil_append] at hout
    refine iff_of_false (fun ⟨msg, h, _⟩ => ?_) hn
    rw [hout] at h
    exact not_client_resumeTx (h ▸ List.mem_cons_self)

/-- A receive buffer of the proxy. -/
def sizeofRxBuf : ℕ := 8192

/-- In every state that a run reaches: a message of a client is dropped or sent as it should just
when it has a whole header or nobody to go to, a packet of the modem reaches the one client that
has its port just when it is for this node, and what has gone one way comes back the other way as it
was. -/
theorem packets_iff (is : List Input) (s : State) (h : exec .init is = some s) :
    (∀ fd pQMI, hdrQMIType pQMI ≠ QMUX_TYPE_CTL → hdrLength pQMI + 1 ≤ pQMI.length →
        (Encapsulated s fd pQMI ↔ 5 ≤ hdrLength pQMI ∨ ∀ c, ¬ Addressed s fd pQMI c))
      ∧ (∀ hdr fd c, hdrType hdr = QRTR_TYPE_DATA → sizeofQrtrHdr + hdrSize hdr ≤ hdr.length →
        hdr.length ≤ sizeofRxBuf → holders s (dstPortId hdr) = [(fd, c)] →
          (Decapsulated s hdr fd c ↔ dstNodeId hdr = nodeMyself))
      ∧ (∀ fd pQMI c packet hdr msg, Addressed s fd pQMI c → Carried packet c (body pQMI) →
        payload hdr = payload packet → Delivered msg c (payload hdr) →
          hdrQMIType msg = hdrQMIType pQMI ∧ hdrClientId msg = hdrClientId pQMI
            ∧ body msg = body pQMI)
      ∧ ∀ hdr c msg packet, Delivered msg c (payload hdr) → Carried packet c (body msg) →
        payload packet = payload hdr := by
  have hs := allSized_exec h
  refine ⟨fun fd pQMI _ hread => encapsulated_iff hs hread,
    fun hdr fd c htype hfit hrx hc => decapsulated_iff hs htype hfit ?_ hc,
    fun fd pQMI c packet hdr msg hc hsent hback hmsg => ?_,
    fun hdr c msg packet hmsg hsent => hsent.data.trans hmsg.data⟩
  · have hrx' : hdr.length ≤ 8192 := hrx
    omega
  · obtain ⟨-, -, -, -, htype, hid⟩ := mem_of_addressed hc
    exact ⟨hmsg.type.trans htype.symm, hmsg.id.trans hid.symm,
      hmsg.data.trans (hback.trans hsent.data)⟩

/-- The server of service 1 is announced and a client gets an id for it. -/
def oneClient : List Input :=
  [.device (serverChange QRTR_TYPE_NEW_SERVER) true, .accept 5 true,
    .client 5 getClientIdMsg true]

/-- Seven bytes after the header, on a buffer where nothing follows. -/
def wholeMsg : Bytes := [1, 12, 0, 0, 1, 1, 0, 1, 0, 0x2D, 0, 0, 0]

theorem packets_wholeMsg : ∃ s, exec .init oneClient = some s ∧ Encapsulated s 5 wholeMsg := by
  refine ⟨_, rfl, ((packets_iff oneClient _ rfl).1 5 wholeMsg ?_ ?_).2 (.inl ?_)⟩
  · decide
  · decide
  · decide

/-- Four bytes on a buffer where the last message was the client's. -/
def cutMsg : Bytes := [1, 3, 0, 0, 1, 1, 0, 1, 0, 0x2D, 0, 0, 0]

/-- A message that ends in its header makes the copy leave the packet. -/
theorem cutMsg_overruns : ∃ s, exec .init oneClient = some s ∧ hdrLength cutMsg = 3
    ∧ (∃ c, Addressed s 5 cutMsg c) ∧ recvQmiChecked s cutMsg 5 = none
      ∧ ¬ Encapsulated s 5 cutMsg := by
  have hnone : ∀ {s : State}, recvQmiChecked s cutMsg 5 = none → ¬ Encapsulated s 5 cutMsg :=
    fun h ⟨outs, hout, _⟩ => by simp [h] at hout
  refine ⟨_, rfl, rfl, ⟨⟨1, 1, 1, 1⟩, ⟨⟨5, [⟨1, 1, 1, 1⟩]⟩, by decide, by decide⟩,
    ⟨1, 0, 0, 3, 7, 3, QRTR_PORT_CTRL⟩, ?_, by decide⟩, ?_, hnone ?_⟩
  · decide
  · decide
  · decide

end QrtrProxy

end BananaWrt
