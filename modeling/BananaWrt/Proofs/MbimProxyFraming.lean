import BananaWrt.Lib.Keyed
import BananaWrt.Lib.Stream
import BananaWrt.Proofs.MbimProxyRouting

/-!
# Messages and reads of the MBIM proxy

`handle_client_request` takes one read from a client for one message: it looks at the header the
read begins with and passes on what was read in one write. With reads that each return one
message, the device gets the client's messages with the slot number in the top byte of their
`TransactionId`; other ways of cutting the stream break this (`framed_iff`).
-/

namespace BananaWrt

namespace MbimProxy

open Bytes

/-- A message as a client writes it: a whole header, and the length that it gives. -/
def WellFormed (m : Bytes) : Prop := sizeofHeader ≤ m.length ∧ messageLength m = m.length

instance : DecidablePred WellFormed := fun _ => inferInstanceAs (Decidable (_ ∧ _))

/-- A read from a client: the state of the loop it is made in, what the receive buffer held
before and what was read. -/
structure ClientRead where
  world : World
  stale : Bytes
  chunk : Bytes

def ClientRead.pdata (r : ClientRead) : Bytes := overlay r.chunk r.stale

def clientOut (fd : ℤ) (reads : List ClientRead) : List Out :=
  reads.flatMap fun r => handleClientRequest r.world.cmClients fd r.pdata r.chunk.length

def devWrites (out : List Out) : List Bytes :=
  out.filterMap fun
    | .dev b => some b
    | .client _ _ _ => none

def clientWrites (out : List Out) : List Bytes :=
  out.filterMap fun
    | .client _ _ b => some b
    | .dev _ => none

def inSlot (i : Fin CM_MAX_CLIENT) (m : Bytes) : Bytes :=
  setTransactionId m (2 ^ TID_SHIFT * (i + 1) + transactionId m % 2 ^ TID_SHIFT)

/-- The device gets the messages of the client, each with its slot number, but for the ones that
the proxy answers itself. -/
def Framed (fd : ℤ) (i : Fin CM_MAX_CLIENT) (ms : List Bytes) (reads : List ClientRead) : Prop :=
  devWrites (clientOut fd reads) = (ms.filter (¬ IsOpenClose ·)).map (inSlot i)
    ∧ clientWrites (clientOut fd reads) = (ms.filter (IsOpenClose ·)).map fun m =>
        openDone (messageType m) (transactionId m)

/-- Each read returned one message, and the ids of those passed on have nothing in their top byte
that the slot number does not have. -/
def OneByOne (i : Fin CM_MAX_CLIENT) (ms : List Bytes) (reads : List ClientRead) : Prop :=
  reads.map (·.chunk) = ms
    ∧ ∀ m ∈ ms, ¬ IsOpenClose m → transactionId m >>> TID_SHIFT ||| (i + 1 : ℕ) = i + 1

/-- The client on `fd` is in slot `i` of the running loop, and something was read from it. -/
structure FromClient (devFd fd : ℤ) (i : Fin CM_MAX_CLIENT) (r : ClientRead) : Prop where
  reached : ∃ is, run devFd is = some r.world
  running : r.world.exited = none
  live : (r.world.cmClients i).Live
  fd_eq : (r.world.cmClients i).clientFd = fd
  nonempty : r.chunk ≠ []

section

variable {devFd fd : ℤ} {i : Fin CM_MAX_CLIENT} {reads : List ClientRead}

def ClientRead.sent (i : Fin CM_MAX_CLIENT) (r : ClientRead) : Bytes :=
  (setTransactionId r.pdata (packed i (transactionId r.pdata))).take r.chunk.length

theorem FromClient.out {r : ClientRead} (hdev : 0 < devFd) (h : FromClient devFd fd i r) :
    handleClientRequest r.world.cmClients fd r.pdata r.chunk.length =
      if IsOpenClose r.pdata then
        [.client fd (r.world.cmClients i).con
          (openDone (messageType r.pdata) (transactionId r.pdata))]
      else [.dev (r.sent i)] := by
  obtain ⟨is, hr⟩ := h.reached
  have hs := (sound_of_run hdev hr h.running).slots
  rw [← h.fd_eq]
  exact handleClientRequest_live hs h.live _ _

theorem devWrites_clientOut (hdev : 0 < devFd) (h : ∀ r ∈ reads, FromClient devFd fd i r) :
    devWrites (clientOut fd reads)
      = (reads.filter (¬ IsOpenClose ·.pdata)).map (ClientRead.sent i) := by
  unfold devWrites clientOut
  rw [List.filterMap_flatMap]
  refine List.flatMap_eq_map_filter reads fun r hr => ?_
  rw [(h r hr).out hdev]
  by_cases ho : IsOpenClose r.pdata <;> simp [ho]

theorem clientWrites_clientOut (hdev : 0 < devFd) (h : ∀ r ∈ reads, FromClient devFd fd i r) :
    clientWrites (clientOut fd reads)
      = (reads.filter (IsOpenClose ·.pdata)).map fun r =>
          openDone (messageType r.pdata) (transactionId r.pdata) := by
  unfold clientWrites clientOut
  rw [List.filterMap_flatMap]
  refine List.flatMap_eq_map_filter reads fun r hr => ?_
  rw [(h r hr).out hdev]
  by_cases ho : IsOpenClose r.pdata <;> simp [ho]

theorem messageType_pdata {r : ClientRead} (h : sizeofHeader ≤ r.chunk.length) :
    messageType r.pdata = messageType r.chunk :=
  le32_overlay (by unfold sizeofHeader at h; omega)

theorem transactionId_pdata {r : ClientRead} (h : sizeofHeader ≤ r.chunk.length) :
    transactionId r.pdata = transactionId r.chunk :=
  le32_overlay h

theorem isOpenClose_pdata {r : ClientRead} (h : sizeofHeader ≤ r.chunk.length) :
    IsOpenClose r.pdata ↔ IsOpenClose r.chunk := by
  unfold IsOpenClose
  rw [messageType_pdata h]

theorem sent_eq {r : ClientRead} (h : sizeofHeader ≤ r.chunk.length) :
    r.sent i = setTransactionId r.chunk (packed i (transactionId r.chunk)) := by
  unfold ClientRead.sent
  rw [transactionId_pdata h]
  exact take_putLe32_overlay h _ _

theorem length_sent (r : ClientRead) : (r.sent i).length = r.chunk.length := by
  simp only [ClientRead.sent, ClientRead.pdata, setTransactionId, putLe32, overlay,
    List.length_take, List.length_append, List.length_drop, length_ofLe32]
  omega

theorem packed_eq_iff {tid : ℕ} :
    packed i tid = 2 ^ TID_SHIFT * (i + 1) + tid % 2 ^ TID_SHIFT
      ↔ tid >>> TID_SHIFT ||| (i + 1 : ℕ) = i + 1 := by
  rw [packed, Nat.or_shiftLeft_eq, Nat.add_right_cancel_iff,
    Nat.mul_left_cancel_iff (Nat.two_pow_pos _)]

theorem framed_of_oneByOne (hdev : 0 < devFd) (h : ∀ r ∈ reads, FromClient devFd fd i r)
    (hw : ∀ r ∈ reads, sizeofHeader ≤ r.chunk.length) {ms : List Bytes}
    (ho : OneByOne i ms reads) : Framed fd i ms reads := by
  obtain ⟨rfl, htop⟩ := ho
  refine ⟨?_, ?_⟩
  · rw [devWrites_clientOut hdev h, List.filter_map, List.map_map,
      List.filter_congr fun r hr => decide_eq_decide.2 (not_congr (isOpenClose_pdata (hw r hr)))]
    refine List.map_congr_left fun r hr => ?_
    obtain ⟨hr, hno⟩ := List.mem_filter.1 hr
    have hsub := htop r.chunk (List.mem_map_of_mem hr) (by simpa using hno)
    rw [sent_eq (hw r hr), packed_eq_iff.2 hsub]
    rfl
  · rw [clientWrites_clientOut hdev h, List.filter_map, List.map_map,
      List.filter_congr fun r hr => decide_eq_decide.2 (isOpenClose_pdata (hw r hr))]
    refine List.map_congr_left fun r hr => ?_
    have hlen := hw r (List.mem_of_mem_filter hr)
    rw [messageType_pdata hlen, transactionId_pdata hlen]
    rfl

theorem Framed.sent {ms : List Bytes} (hf : Framed fd i ms reads) (hdev : 0 < devFd)
    (h : ∀ r ∈ reads, FromClient devFd fd i r) (hno : ∀ m ∈ ms, ¬ IsOpenClose m) :
    (reads.filter (¬ IsOpenClose ·.pdata)).map (ClientRead.sent i) = ms.map (inSlot i) := by
  have hall : ms.filter (¬ IsOpenClose ·) = ms :=
    List.filter_eq_self.2 fun m hm => by simpa using hno m hm
  rw [← devWrites_clientOut hdev h, hf.1, hall]

theorem chunks_of_framed (hdev : 0 < devFd) (h : ∀ r ∈ reads, FromClient devFd fd i r)
    {ms : List Bytes} (hms : ∀ m ∈ ms, WellFormed m)
    (hcut : (reads.map (·.chunk)).flatten = ms.flatten) (hno : ∀ m ∈ ms, ¬ IsOpenClose m)
    (hf : Framed fd i ms reads) : reads.map (·.chunk) = ms := by
  have hlens : ((reads.filter (¬ IsOpenClose ·.pdata)).map (·.chunk)).map List.length
      = ms.map List.length := by
    calc _ = ((reads.filter (¬ IsOpenClose ·.pdata)).map (ClientRead.sent i)).map List.length := by
          rw [List.map_map, List.map_map]
          exact List.map_congr_left fun r _ => (length_sent r).symm
      _ = (ms.map (inSlot i)).map List.length := by rw [hf.sent hdev h hno]
      _ = ms.map List.length := by
          rw [List.map_map]
          exact List.map_congr_left fun m hm => length_putLe32 (hms m hm).1 _
  have hsub : ((reads.filter (¬ IsOpenClose ·.pdata)).map (·.chunk)).Sublist
      (reads.map (·.chunk)) := List.filter_sublist.map _
  have hall := hsub.eq_of_length_flatten_eq (by
    rw [hcut, List.length_flatten, List.length_flatten, hlens]) fun c hc => by
      obtain ⟨r, hr, rfl⟩ := List.mem_map.1 hc
      exact (h r hr).nonempty
  exact List.eq_iff_flatten_eq.2 ⟨hcut, by rw [← hlens, hall]⟩

theorem oneByOne_of_framed (hdev : 0 < devFd) (h : ∀ r ∈ reads, FromClient devFd fd i r)
    {ms : List Bytes} (hms : ∀ m ∈ ms, WellFormed m)
    (hcut : (reads.map (·.chunk)).flatten = ms.flatten) (hno : ∀ m ∈ ms, ¬ IsOpenClose m)
    (hf : Framed fd i ms reads) : OneByOne i ms reads := by
  have hchunks := chunks_of_framed hdev h hms hcut hno hf
  refine ⟨hchunks, fun m hm _ => ?_⟩
  subst hchunks
  have hw : ∀ r ∈ reads, sizeofHeader ≤ r.chunk.length := fun r hr =>
    (hms r.chunk (List.mem_map_of_mem hr)).1
  have hall : reads.filter (¬ IsOpenClose ·.pdata) = reads :=
    List.filter_eq_self.2 fun r hr => by
      simpa [isOpenClose_pdata (hw r hr)] using hno r.chunk (List.mem_map_of_mem hr)
  obtain ⟨r, hr, rfl⟩ := List.mem_map.1 hm
  have hsent := hf.sent hdev h hno
  rw [hall, List.map_map] at hsent
  have heq := List.map_inj_left.1 hsent r hr
  rw [sent_eq (hw r hr)] at heq
  have hid := congrArg (le32 · 8) heq
  simp only [Function.comp, inSlot, setTransactionId] at hid
  have hlt : 2 ^ TID_SHIFT * ((i : ℕ) + 1) + transactionId r.chunk % 2 ^ TID_SHIFT < 2 ^ 32 := by
    have hi : (i : ℕ) < 32 := i.isLt
    unfold TID_SHIFT
    omega
  have hpacked : packed i (transactionId r.chunk) < 2 ^ 32 := packed_lt i (le32_lt _ _)
  rw [le32_putLe32 (hw r hr), le32_putLe32 (hw r hr), Nat.mod_eq_of_lt hlt,
    Nat.mod_eq_of_lt hpacked] at hid
  exact packed_eq_iff.1 hid

end

/-- However the bytes of the messages are cut into reads, and whatever the receive buffer held and
the other clients did between them: with one read for one message, and ids that leave room for
the slot number, the device gets the messages; and unless some of the messages are for the proxy
itself, only so. -/
theorem framed_iff (devFd : ℤ) (hdev : 0 < devFd) (fd : ℤ) (i : Fin CM_MAX_CLIENT)
    (ms : List Bytes) (reads : List ClientRead) (hms : ∀ m ∈ ms, WellFormed m)
    (hreads : ∀ r ∈ reads, FromClient devFd fd i r)
    (hcut : (reads.map (·.chunk)).flatten = ms.flatten) :
    (OneByOne i ms reads → Framed fd i ms reads)
      ∧ ((∀ m ∈ ms, ¬ IsOpenClose m) → Framed fd i ms reads → OneByOne i ms reads) := by
  refine ⟨fun ho => framed_of_oneByOne hdev hreads (fun r hr => ?_) ho,
    oneByOne_of_framed hdev hreads hms hcut⟩
  exact (hms r.chunk (ho.1 ▸ List.mem_map_of_mem hr)).1

def twoClientsWorld : World := (run 3 twoClients).getD (World.init 3)

theorem fromClient_five {stale chunk : Bytes} (h : chunk ≠ []) :
    FromClient 3 5 ⟨0, by decide⟩ ⟨twoClientsWorld, stale, chunk⟩ :=
  ⟨⟨twoClients, rfl⟩, rfl, show (0 : ℤ) < 5 by decide, rfl, h⟩

theorem framed_one_by_one : Framed 5 ⟨0, by decide⟩ [commandMsg 1, commandMsg 2]
    [⟨twoClientsWorld, [], commandMsg 1⟩, ⟨twoClientsWorld, [], commandMsg 2⟩] :=
  (framed_iff 3 (by decide) 5 ⟨0, by decide⟩ [commandMsg 1, commandMsg 2]
    [⟨twoClientsWorld, [], commandMsg 1⟩, ⟨twoClientsWorld, [], commandMsg 2⟩] (by decide)
    (by simp [fromClient_five, commandMsg, ofLe32, ofLe16]) rfl).1 ⟨rfl, by decide⟩

/-- Two messages that arrive in one read are passed on in one write, the second one without the
slot number. -/
theorem not_framed_coalesced :
    ∃ ms reads, (∀ m ∈ ms, WellFormed m) ∧ (∀ r ∈ reads, FromClient 3 5 ⟨0, by decide⟩ r)
      ∧ (reads.map (·.chunk)).flatten = ms.flatten
      ∧ devWrites (clientOut 5 reads) = [commandMsg 0x01000001 ++ commandMsg 2]
      ∧ ¬ Framed 5 ⟨0, by decide⟩ ms reads :=
  ⟨[commandMsg 1, commandMsg 2], [⟨twoClientsWorld, [], commandMsg 1 ++ commandMsg 2⟩],
    by decide, by simp [fromClient_five, commandMsg, ofLe32, ofLe16], rfl, by decide,
    fun h => absurd h.1 (by decide)⟩

end MbimProxy

end BananaWrt
