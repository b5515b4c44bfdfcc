import Udp2p.Discovery.Dispatch

/-!
# Reading JSON

What `serde_json` writes for requests, responses and messages can be read back: the fields are
arrays of bytes between names, and no array contains the bracket that closes it. The formats here
write what `reqJson`, `respJson`, `rpcJson` and `kadJson` write, and read exactly these texts'
layout.

* `KadWire.formatted_writes`, `write_rpcFormat` — they write the same texts.
* `KadWire.formatted_faithful` — peer discovery may rely on them.
-/

namespace Udp2p

open Format

/-! ## Arrays of bytes -/

def isDigit (c : UInt8) : Bool := 48 ≤ c && c ≤ 57

/-- A decimal number of at most 255. -/
def readByte (text : List UInt8) : Option UInt8 :=
  let n := text.foldl (fun n d => n * 10 + (d.toNat - 48)) 0
  if text ≠ [] ∧ text.all isDigit ∧ n < 256 then some (.ofNat n) else none

theorem readByte_jsonNat (b : UInt8) : readByte (jsonNat b.toNat) = some b ∧
    jsonNat b.toNat ≠ [] ∧ (jsonNat b.toNat).all isDigit := by
  have h : ∀ n < 256, readByte (jsonNat n) = some (.ofNat n) ∧ jsonNat n ≠ [] ∧
      (jsonNat n).all isDigit := by decide +kernel
  have hb := h _ b.toNat_lt
  rw [UInt8.ofNat_toNat] at hb
  exact hb

/-- Only digits are written for a byte. -/
theorem notMem_jsonNat {c : UInt8} (hc : isDigit c = false) (b : UInt8) : c ∉ jsonNat b.toNat := by
  intro hmem
  have hdigit := List.all_eq_true.mp (readByte_jsonNat b).2.2 c hmem
  rw [hc] at hdigit
  cases hdigit

def bytesFormat : Format UInt8 (List UInt8) :=
  after [91] (upTo 93 (joined 44 fun b : UInt8 => jsonNat b.toNat) (parseList 44 readByte)
    (notMem_joined (by decide) (notMem_jsonNat (by decide)))
    (parseList_joined (notMem_jsonNat (by decide)) (fun b => (readByte_jsonNat b).2.1)
      fun b => (readByte_jsonNat b).1))

/-- An array of 32 bytes. -/
def keyFormat : Format UInt8 InnerKey :=
  bytesFormat.convert (fun l => if h : l.length = 32 then some ⟨l, h⟩ else none)
    List.Vector.toList fun key => by
      rw [dif_pos key.toList_length]
      rfl

/-! ## Messages -/

def reqFormat : Format UInt8 Req :=
  after "\x7b\"id\":".toUTF8.data.toList
    ((keyFormat.pair (after ",\"sender\":".toUTF8.data.toList (bytesFormat.pair
      (after ",\"payload\":".toUTF8.data.toList (bytesFormat.before [125]))))).convert
        (fun r => some ⟨r.1, r.2.1, r.2.2⟩) (fun req => (req.id, req.sender, req.payload))
        fun _ => rfl)

theorem write_reqFormat (req : Req) : reqFormat.write req = reqJson req := by
  simp only [reqJson, List.append_assoc]
  rfl

def respFormat : Format UInt8 Resp :=
  after "\x7b\"request\":".toUTF8.data.toList
    ((bytesFormat.pair (after ",\"receiver\":".toUTF8.data.toList (bytesFormat.pair
      (after ",\"payload\":".toUTF8.data.toList (bytesFormat.before [125]))))).convert
        (fun r => some ⟨r.1, r.2.1, r.2.2⟩)
        (fun resp => (resp.request, resp.receiver, resp.payload)) fun _ => rfl)

theorem write_respFormat (resp : Resp) : respFormat.write resp = respJson resp := by
  simp only [respJson, List.append_assoc]
  rfl

/-- A variant of an enumeration whose data are bytes. -/
def variantFormat (name : String) : Format UInt8 (List UInt8) :=
  after ("\x7b\"".toUTF8.data.toList ++ name.toUTF8.data.toList ++ "\":".toUTF8.data.toList)
    (bytesFormat.before [125])

/-- The variants differ in the fifth letter, and in the first one from the one without data. -/
def kadFormat : Format UInt8 KadMessage :=
  ((variantFormat "Request").orElse ((variantFormat "Response").orElse
    (lit "\"Kill\"".toUTF8.data.toList) fun _ _ => rfl) fun m _ => by cases m <;> rfl).convert
    (fun
      | .inl req => some (.request req)
      | .inr (.inl resp) => some (.response resp)
      | .inr (.inr ()) => some .kill)
    (fun
      | .request req => .inl req
      | .response resp => .inr (.inl resp)
      | .kill => .inr (.inr ()))
    fun m => by cases m <;> rfl

theorem write_kadFormat (message : KadMessage) : kadFormat.write message = kadJson message := by
  cases message with
  | request req =>
    rw [kadJson, jsonVariant, List.append_assoc]
    rfl
  | response resp =>
    rw [kadJson, jsonVariant, List.append_assoc]
    rfl
  | kill => rfl

/-! ## RPCs -/

/-- An array of arrays of bytes. -/
def nodesFormat : Format UInt8 Nodes :=
  after [91] (bytesFormat.separated 44 93 (by decide) fun _ _ h => by cases h)

theorem write_nodesFormat (nodes : Nodes) :
    nodesFormat.write nodes = jsonList (nodes.map jsonArray) := by
  show 91 :: (bytesFormat.separated 44 93 _ _).write nodes = _
  rw [write_separated]
  rfl

/-- A variant of an enumeration with its data. -/
def dataFormat {α : Type} (name : String) (f : Format UInt8 α) : Format UInt8 α :=
  after ("\x7b\"".toUTF8.data.toList ++ name.toUTF8.data.toList ++ "\":".toUTF8.data.toList)
    (f.before [125])

/-- A key and a value, in an array. -/
def storeFormat : Format UInt8 (StoreKey × Value) :=
  after [91] (keyFormat.pair (after [44] (bytesFormat.before [93])))

/-- The names of the variants differ: none is the beginning of another one. -/
def rpcFormat : Format UInt8 RPC :=
  ((lit "\"Ping\"".toUTF8.data.toList).orElse
    ((dataFormat "NewPeer" bytesFormat).orElse
    ((dataFormat "Store" storeFormat).orElse
    ((dataFormat "FindNode" bytesFormat).orElse
    ((dataFormat "FindValue" bytesFormat).orElse
    ((dataFormat "Nodes" nodesFormat).orElse
    ((dataFormat "Value" bytesFormat).orElse
    ((dataFormat "Saved" keyFormat).orElse (dataFormat "Pong" bytesFormat)
      fun _ _ => rfl)
      fun m _ => by rcases m with m | m <;> rfl)
      fun m _ => by rcases m with m | m | m <;> rfl)
      fun m _ => by rcases m with m | m | m | m <;> rfl)
      fun m _ => by rcases m with m | m | m | m | m <;> rfl)
      fun m _ => by rcases m with m | m | m | m | m | m <;> rfl)
      fun m _ => by rcases m with m | m | m | m | m | m | m <;> rfl)
      fun m _ => by rcases m with m | m | m | m | m | m | m | m <;> rfl).convert
    (fun
      | .inl () => some .ping
      | .inr (.inl peer) => some (.newPeer peer)
      | .inr (.inr (.inl (key, value))) => some (.store key value)
      | .inr (.inr (.inr (.inl peer))) => some (.findNode peer)
      | .inr (.inr (.inr (.inr (.inl value)))) => some (.findValue value)
      | .inr (.inr (.inr (.inr (.inr (.inl nodes))))) => some (.nodes nodes)
      | .inr (.inr (.inr (.inr (.inr (.inr (.inl value)))))) => some (.value value)
      | .inr (.inr (.inr (.inr (.inr (.inr (.inr (.inl key))))))) => some (.saved key)
      | .inr (.inr (.inr (.inr (.inr (.inr (.inr (.inr peer))))))) => some (.pong peer))
    (fun
      | .ping => .inl ()
      | .newPeer peer => .inr (.inl peer)
      | .store key value => .inr (.inr (.inl (key, value)))
      | .findNode peer => .inr (.inr (.inr (.inl peer)))
      | .findValue value => .inr (.inr (.inr (.inr (.inl value))))
      | .nodes nodes => .inr (.inr (.inr (.inr (.inr (.inl nodes)))))
      | .value value => .inr (.inr (.inr (.inr (.inr (.inr (.inl value))))))
      | .saved key => .inr (.inr (.inr (.inr (.inr (.inr (.inr (.inl key)))))))
      | .pong peer => .inr (.inr (.inr (.inr (.inr (.inr (.inr (.inr peer))))))))
    fun rpc => by cases rpc <;> rfl

theorem write_rpcFormat (rpc : RPC) : rpcFormat.write rpc = rpcJson rpc := by
  have hdata : ∀ {α : Type} (name : String) (f : Format UInt8 α) (a : α),
      (dataFormat name f).write a = jsonVariant name (f.write a) := by
    intro α name f a
    rw [jsonVariant, List.append_assoc]
    rfl
  cases rpc with
  | ping => rfl
  | newPeer peer => exact hdata _ _ _
  | store key value =>
    refine (hdata "Store" storeFormat (key, value)).trans (congrArg _ ?_)
    show [91] ++ (jsonArray key.toList ++ ([44] ++ (jsonArray value ++ [93]))) = _
    simp [jsonList, List.intercalate_cons_cons, List.intercalate_singleton]
  | findNode peer => exact hdata _ _ _
  | findValue value => exact hdata _ _ _
  | nodes nodes =>
    refine (hdata "Nodes" nodesFormat nodes).trans (congrArg _ ?_)
    exact write_nodesFormat nodes
  | value value => exact hdata _ _ _
  | saved key => exact hdata _ _ _
  | pong peer => exact hdata _ _ _

/-- No text is read both as a request and as a response: the first name differs. -/
theorem parse_respFormat_of_req {text : List UInt8} {req : Req}
    (h : reqFormat.parse text = some req) : respFormat.parse text = none := by
  unfold parse at h ⊢
  cases hread : reqFormat.read text with
  | none =>
    rw [hread] at h
    cases h
  | some r =>
    obtain ⟨rest, rfl⟩ := prefix_of_read_after hread
    rfl

/-! ## Peer discovery -/

/-- Peer discovery in JSON, reading the requests, responses and messages it writes. -/
def KadWire.formatted (peer : ByteRep PeerInfo) (rpc : ByteRep RPC) : KadWire where
  peer := peer
  rpc := rpc
  req := .ofFormat reqFormat
  resp := .ofFormat respFormat
  kad := .ofFormat kadFormat

/-- It writes JSON. -/
theorem KadWire.formatted_writes (peer : ByteRep PeerInfo) (rpc : ByteRep RPC) :
    (∀ req, (KadWire.formatted peer rpc).req.asBytes req = some (reqJson req)) ∧
    (∀ resp, (KadWire.formatted peer rpc).resp.asBytes resp = some (respJson resp)) ∧
    ∀ message, (KadWire.formatted peer rpc).kad.asBytes message = some (kadJson message) :=
  ⟨fun req => congrArg some (write_reqFormat req),
    fun resp => congrArg some (write_respFormat resp),
    fun message => congrArg some (write_kadFormat message)⟩

/-- A request is read back. -/
theorem KadWire.formatted_req (peer : ByteRep PeerInfo) (rpc : ByteRep RPC) (req : Req) :
    (KadWire.formatted peer rpc).req.fromBytes (reqJson req) = some req := by
  rw [← write_reqFormat]
  exact reqFormat.parse_write req

theorem KadWire.formatted_faithful {localInfo : PeerInfo} {peers : List PeerInfo}
    {rpcs : List RPC} : (KadWire.formatted (.reading peerJson (localInfo :: peers))
      (.reading rpcJson rpcs)).Faithful localInfo where
  peer := ByteRep.reading_total _ _
  rpc := ByteRep.reading_total _ _
  req := ByteRep.ofFormat_total _
  resp := ByteRep.ofFormat_total _
  kad := ByteRep.ofFormat_total _
  stable := (KadWire.json_faithful localInfo peers rpcs [] []).stable
  self := (KadWire.json_faithful localInfo peers rpcs [] []).self
  payload hreq hresp := by
    have hnone := parse_respFormat_of_req hreq
    rw [show respFormat.parse _ = some _ from hresp] at hnone
    cases hnone

/-- Peer discovery in JSON, reading the peers listed and every RPC. -/
def KadWire.listed (peers : List PeerInfo) : KadWire :=
  .formatted (.reading peerJson peers) (.ofFormat rpcFormat)

theorem KadWire.listed_faithful {peers : List PeerInfo} (h : (peers.map peerJson).Nodup)
    {localInfo : PeerInfo} (hself : localInfo ∈ peers) :
    (KadWire.listed peers).Faithful localInfo where
  peer := ByteRep.reading_total _ _
  rpc := ByteRep.ofFormat_total _
  req := ByteRep.ofFormat_total _
  resp := ByteRep.ofFormat_total _
  kad := ByteRep.ofFormat_total _
  stable hread hwrite := by
    obtain ⟨hmem, -⟩ := ByteRep.reading_eq_some hread
    cases hwrite
    exact ByteRep.reading_of_nodup h hmem
  self hwrite := by
    cases hwrite
    exact ⟨localInfo, ByteRep.reading_of_nodup h hself, rfl⟩
  payload hreq hresp := by
    have hnone := parse_respFormat_of_req hreq
    rw [show respFormat.parse _ = some _ from hresp] at hnone
    cases hnone

/-- An RPC is read back. -/
theorem KadWire.listed_rpc (peers : List PeerInfo) (rpc : RPC) :
    (KadWire.listed peers).rpc.fromBytes (rpcJson rpc) = some rpc := by
  rw [← write_rpcFormat]
  exact rpcFormat.parse_write rpc

/-- A response is read back with the request it answers and its RPC. -/
theorem Kademlia.readResponse_listed (peers : List PeerInfo) {req : Req} {resp : Resp} {rpc : RPC}
    (hreq : resp.request = reqJson req) (hrpc : resp.payload = rpcJson rpc) :
    readResponse (.listed peers) (respJson resp) = some (req, some rpc) := by
  have hresp : (KadWire.listed peers).resp.fromBytes (respJson resp) = some resp := by
    rw [← write_respFormat]
    exact respFormat.parse_write resp
  have hrpc' : (KadWire.listed peers).rpc.fromBytes resp.payload = some rpc := by
    rw [hrpc]
    exact KadWire.listed_rpc peers rpc
  have hreq' : (KadWire.listed peers).req.fromBytes resp.request = some req := by
    rw [hreq]
    exact KadWire.formatted_req _ _ req
  simp only [readResponse, hresp, hreq', hrpc', Option.bind_eq_bind, Option.bind_some,
    Option.pure_def]

end Udp2p
