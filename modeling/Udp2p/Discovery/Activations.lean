import Udp2p.Discovery.Dispatch

/-!
# Do the handlers call each other forever?

The last branch of each handler hands the bytes it was given to the other handler, so nothing gets
smaller. One activation of a handler either returns or ends in such a call (`ending`,
`handle_succ`); `activations` lists the handlers activated one after another.

* `ending_of_calls` — a handler that was called by the other one does not call back: the RPC both
  read is one that only one of them passes on.
* `handlers_activated_once` — whatever the message, no handler is activated twice.
-/

namespace Udp2p

namespace Kademlia

variable {M : Type} [LinkedHashMap PeerId PeerInfo M] (W : KadWire)

inductive Handler where
  | request
  | response
  deriving DecidableEq

def Handler.other : Handler → Handler
  | .request => .response
  | .response => .request

def handle (depth : Nat) : Handler → Kademlia M → List UInt8 →
    Option (Kademlia M × List Outgoing)
  | .request => handleRequest W depth
  | .response => handleResponse W depth

/-- How an activation of a handler ends: with a result, or in a call of the other handler on the
same bytes. -/
inductive Ending (M : Type) where
  | returns (result : Option (Kademlia M × List Outgoing))
  | calls (k : Kademlia M)

/-- The result of an activation, given the result of a call. -/
def Ending.result (call : Kademlia M → Option (Kademlia M × List Outgoing)) :
    Ending M → Option (Kademlia M × List Outgoing)
  | .returns result => result
  | .calls k => call k

/-- What `handle_request` does before it looks at the RPC. -/
def enroll (k : Kademlia M) (request : Req) : Option (Kademlia M × PeerInfo × RPC) := do
  let (_, sender, rpc) := request.toComponents W
  let sender ← sender
  let bytes ← W.peer.asBytes sender
  let k ← addPeer W k bytes
  let rpc ← rpc
  return (k, sender, rpc)

def requestEnding (k : Kademlia M) (req : RequestBytes) : Ending M :=
  match W.req.fromBytes req with
  | none => .returns (some (k, []))
  | some request =>
    match enroll W k request with
    | none => .returns none
    | some (k, _, .findNode node) =>
      .returns (match W.peer.fromBytes node with
        | some peer => lookupNode W k peer request
        | none => some (k, []))
    | some (k, _, .newPeer peer) => .returns ((addPeer W k peer).map fun k => (k, []))
    | some (k, _, .findValue _) => .returns (some (k, []))
    | some (k, _, .store _ _) => .returns (some (k, []))
    | some (k, sender, .ping) =>
      .returns ((preparePongResponse W k sender request).map fun respMsg =>
        (k, [{ dst := sender.address, message := respMsg }]))
    | some (k, _, _) => .calls k

def responseEnding (k : Kademlia M) (resp : ResponseBytes) : Ending M :=
  match W.resp.fromBytes resp with
  | none => .returns (some (k, []))
  | some rm =>
    match rm.toComponents W with
    | (none, _, _) => .returns (some (k, []))
    | (some _, _, none) => .returns none
    | (some _, _, some (.nodes nodes)) => .returns ((nodesLoop W).run k nodes)
    | (some _, _, some (.value _)) => .returns (some (k, []))
    | (some _, _, some (.saved _)) => .returns (some (k, []))
    | (some _, _, some (.pong peer)) => .returns ((addPeer W k peer).map fun k => (k, []))
    | (some _, _, some _) => .calls k

def ending : Handler → Kademlia M → List UInt8 → Ending M
  | .request => requestEnding W
  | .response => responseEnding W

/-- The handlers activated, the first one being `h`, as far as the stack of calls goes. -/
def activations : Nat → Handler → Kademlia M → List UInt8 → List Handler
  | 0, _, _, _ => []
  | depth + 1, h, k, bytes =>
    h :: match ending W h k bytes with
      | .returns _ => []
      | .calls k => activations depth h.other k bytes

/-- The handlers `handle_message` activates. -/
def activated (depth : Nat) (k : Kademlia M) : KadMessage → List Handler
  | .request req => activations W depth .request k req
  | .response resp => activations W depth .response k resp
  | .kill => []

variable {W}

/-- **One activation** of a handler, and what it ends with. -/
theorem handle_succ (depth : Nat) (h : Handler) (k : Kademlia M) (bytes : List UInt8) :
    handle W (depth + 1) h k bytes =
      (ending W h k bytes).result fun k' => handle W depth h.other k' bytes := by
  cases h with
  | request =>
    show handleRequest W (depth + 1) k bytes = _
    rw [handleRequest, ending, requestEnding]
    cases W.req.fromBytes bytes with
    | none => rfl
    | some request =>
      simp only [enroll, Req.toComponents]
      cases W.peer.fromBytes request.sender with
      | none => rfl
      | some sender =>
        simp only [Option.bind_eq_bind, Option.bind_some]
        cases W.peer.asBytes sender with
        | none => rfl
        | some peer =>
          simp only [Option.bind_some]
          cases addPeer W k peer with
          | none => rfl
          | some k₁ =>
            cases W.rpc.fromBytes request.payload with
            | none => rfl
            | some rpc =>
              cases rpc with
              | newPeer peer => exact (Option.map_eq_bind ..).symm
              | ping => exact (Option.map_eq_bind ..).symm
              | _ => rfl
  | response =>
    show handleResponse W (depth + 1) k bytes = _
    rw [handleResponse, ending, responseEnding]
    cases W.resp.fromBytes bytes with
    | none => rfl
    | some response =>
      simp only [Resp.toComponents]
      cases W.req.fromBytes response.request with
      | none => rfl
      | some request =>
        cases W.rpc.fromBytes response.payload with
        | none => rfl
        | some rpc =>
          cases rpc with
          | pong peer => exact (Option.map_eq_bind ..).symm
          | _ => rfl

/-- A request is passed on only for an RPC of a response. -/
theorem requestEnding_of_calls {k k' : Kademlia M} {bytes : RequestBytes}
    (h : requestEnding W k bytes = .calls k') : ∃ request rpc,
      W.req.fromBytes bytes = some request ∧ W.rpc.fromBytes request.payload = some rpc ∧
      (responded W rpc).isSome := by
  unfold requestEnding at h
  cases hrequest : W.req.fromBytes bytes with
  | none => simp [hrequest] at h
  | some request =>
    simp only [hrequest] at h
    cases henroll : enroll W k request with
    | none => simp [henroll] at h
    | some r =>
      obtain ⟨k₁, sender, rpc⟩ := r
      have hrpc : W.rpc.fromBytes request.payload = some rpc := by
        obtain ⟨sender', -, henroll⟩ := Option.bind_eq_some_iff.mp henroll
        obtain ⟨peer, -, henroll⟩ := Option.bind_eq_some_iff.mp henroll
        obtain ⟨k₂, -, henroll⟩ := Option.bind_eq_some_iff.mp henroll
        obtain ⟨rpc', hrpc, heq⟩ := Option.bind_eq_some_iff.mp henroll
        cases heq
        exact hrpc
      refine ⟨request, rpc, rfl, hrpc, ?_⟩
      rw [henroll] at h
      cases rpc <;> first | rfl | cases h

/-- A response is passed on only for an RPC of a request. -/
theorem responseEnding_of_calls {k k' : Kademlia M} {bytes : ResponseBytes}
    (h : responseEnding W k bytes = .calls k') : ∃ response rpc,
      W.resp.fromBytes bytes = some response ∧ W.rpc.fromBytes response.payload = some rpc ∧
      responded W rpc = none := by
  unfold responseEnding at h
  cases hresponse : W.resp.fromBytes bytes with
  | none => simp [hresponse] at h
  | some response =>
    simp only [hresponse, Resp.toComponents] at h
    cases hrequest : W.req.fromBytes response.request with
    | none => simp [hrequest] at h
    | some request =>
      simp only [hrequest] at h
      cases hrpc : W.rpc.fromBytes response.payload with
      | none => simp [hrpc] at h
      | some rpc =>
        refine ⟨response, rpc, rfl, hrpc, ?_⟩
        rw [hrpc] at h
        cases rpc <;> first | rfl | cases h

/-- **A handler that was called does not call back.** -/
theorem ending_of_calls (hpayload : ∀ bytes request response, W.req.fromBytes bytes = some request →
      W.resp.fromBytes bytes = some response → request.payload = response.payload)
    {h : Handler} {k k₁ : Kademlia M} {bytes : List UInt8} (hcalls : ending W h k bytes = .calls k₁)
    (k₂ : Kademlia M) : ∃ result, ending W h.other k₂ bytes = .returns result := by
  have hnot : ∀ k k₁ k₂ k₃ : Kademlia M, requestEnding W k bytes = .calls k₁ →
      responseEnding W k₂ bytes ≠ .calls k₃ := by
    intro k k₁ k₂ k₃ hreq hresp
    obtain ⟨request, rpc, hrequest, hrpc, hmine⟩ := requestEnding_of_calls hreq
    obtain ⟨response, rpc', hresponse, hrpc', hyours⟩ := responseEnding_of_calls hresp
    -- one payload, one RPC
    rw [hpayload bytes request response hrequest hresponse, hrpc', Option.some.injEq] at hrpc
    rw [← hrpc, hyours] at hmine
    cases hmine
  cases h with
  | request =>
    cases hother : ending W Handler.request.other k₂ bytes with
    | returns result => exact ⟨result, rfl⟩
    | calls k₃ => exact absurd hother (hnot k k₁ k₂ k₃ hcalls)
  | response =>
    cases hother : ending W Handler.response.other k₂ bytes with
    | returns result => exact ⟨result, rfl⟩
    | calls k₃ => exact absurd hcalls (hnot k₂ k₃ k k₁ hother)

section Payload

variable (hpayload : ∀ bytes request response, W.req.fromBytes bytes = some request →
  W.resp.fromBytes bytes = some response → request.payload = response.payload)
include hpayload

/-- So the second activation is the last one. -/
theorem activations_cases (depth : Nat) (h : Handler) (k : Kademlia M) (bytes : List UInt8) :
    activations W depth h k bytes = [] ∨ activations W depth h k bytes = [h] ∨
      activations W depth h k bytes = [h, h.other] := by
  cases depth with
  | zero => exact Or.inl rfl
  | succ depth =>
    rw [activations]
    cases hcalls : ending W h k bytes with
    | returns result => exact Or.inr (Or.inl rfl)
    | calls k₁ =>
      cases depth with
      | zero => exact Or.inr (Or.inl rfl)
      | succ depth =>
        obtain ⟨result, hreturns⟩ := ending_of_calls hpayload hcalls k₁
        simp only [activations, hreturns]
        exact Or.inr (Or.inr trivial)

/-- More room on the stack changes nothing. -/
theorem handle_add_two (depth : Nat) (h : Handler) (k : Kademlia M) (bytes : List UInt8) :
    handle W (depth + 2) h k bytes = handle W 2 h k bytes := by
  rw [handle_succ, handle_succ]
  cases hcalls : ending W h k bytes with
  | returns result => rfl
  | calls k₁ =>
    obtain ⟨result, hreturns⟩ := ending_of_calls hpayload hcalls k₁
    simp only [handle_succ, hreturns, Ending.result]

/-- **The handlers cannot call each other forever**: an activation of `handle_request` or of
`handle_response` ends with a result or in a call of the other one; and whatever the message and the
state, and however deep calls may go, each is activated at most once, so that a stack with room for
two calls is never exhausted. -/
theorem handlers_activated_once (depth : Nat) (k : Kademlia M) (message : KadMessage) :
    (∀ depth (k : Kademlia M) bytes, handleRequest W (depth + 1) k bytes =
      (requestEnding W k bytes).result fun k' => handleResponse W depth k' bytes) ∧
    (∀ depth (k : Kademlia M) bytes, handleResponse W (depth + 1) k bytes =
      (responseEnding W k bytes).result fun k' => handleRequest W depth k' bytes) ∧
    (∀ h, (activated W depth k message).count h ≤ 1) ∧
    handleMessage W (depth + 2) k message = handleMessage W 2 k message := by
  have hcount : ∀ h k bytes h', (activations W depth h (k : Kademlia M) bytes).count h' ≤ 1 := by
    intro h k bytes h'
    rcases activations_cases hpayload depth h k bytes with heq | heq | heq
    · rw [heq]
      exact Nat.zero_le _
    · rw [heq]
      exact List.count_le_length
    · rw [heq]
      cases h <;> cases h' <;> decide
  refine ⟨fun depth => handle_succ depth .request, fun depth => handle_succ depth .response, ?_⟩
  cases message with
  | request req => exact ⟨hcount _ _ _, handle_add_two hpayload depth .request k req⟩
  | response resp => exact ⟨hcount _ _ _, handle_add_two hpayload depth .response k resp⟩
  | kill => exact ⟨fun _ => Nat.zero_le _, rfl⟩

end Payload

/-! ## Bytes that are both a request and a response -/

open RoutingTable

/-- JSON with the fields of a request and those of a response. -/
def bothJson (req : Req) (resp : Resp) : List UInt8 :=
  "\x7b\"id\":".toUTF8.data.toList ++ jsonArray req.id.toList ++
    ",\"sender\":".toUTF8.data.toList ++ jsonArray req.sender ++
    ",\"request\":".toUTF8.data.toList ++ jsonArray resp.request ++
    ",\"receiver\":".toUTF8.data.toList ++ jsonArray resp.receiver ++
    ",\"payload\":".toUTF8.data.toList ++ jsonArray req.payload ++ [125]

def answeredRequest : Req where
  id := List.Vector.replicate 32 7
  sender := peerJson localPeer
  payload := rpcJson .ping

/-- A request with a value, which only a response should carry. -/
def twofoldRequest : Req := { answeredRequest with payload := rpcJson (.value [1]) }

def twofoldResponse : Resp where
  request := reqJson answeredRequest
  receiver := peerJson localPeer
  payload := rpcJson (.value [1])

def twofoldJson : List UInt8 := bothJson twofoldRequest twofoldResponse

def twofoldWire : KadWire where
  peer := .reading peerJson [localPeer]
  rpc := .reading rpcJson [.value [1]]
  req := .table [(twofoldRequest, twofoldJson), (answeredRequest, reqJson answeredRequest)]
  resp := .table [(twofoldResponse, twofoldJson)]
  kad := .reading kadJson []

theorem twofoldWire_payload (bytes : List UInt8) (request : Req) (response : Resp)
    (hrequest : twofoldWire.req.fromBytes bytes = some request)
    (hresponse : twofoldWire.resp.fromBytes bytes = some response) :
    request.payload = response.payload := by
  obtain ⟨row, hfind, rfl⟩ := Option.map_eq_some_iff.mp hresponse
  obtain rfl := List.mem_singleton.mp (List.mem_of_find?_eq_some hfind)
  have hbytes : twofoldJson = bytes := by simpa using List.find?_some hfind
  subst hbytes
  have hfirst : twofoldWire.req.fromBytes twofoldJson = some twofoldRequest := by
    simp [twofoldWire, ByteRep.table]
  rw [hfirst, Option.some.injEq] at hrequest
  rw [← hrequest]
  rfl

/-- The request is handed on to the other handler, which does not hand it back. -/
theorem twofold_handled_once :
    activated twofoldWire 5 (new localPeer 0 ∅ fun n => ⟨n, List.Vector.replicate 32 0⟩ :
      Kademlia ListedNodes) (.request twofoldJson) = [.request, .response] ∧
    (∀ depth (k : Kademlia ListedNodes) bytes, handleRequest twofoldWire (depth + 1) k bytes =
      (requestEnding twofoldWire k bytes).result fun k' =>
        handleResponse twofoldWire depth k' bytes) ∧
    (∀ depth (k : Kademlia ListedNodes) bytes, handleResponse twofoldWire (depth + 1) k bytes =
      (responseEnding twofoldWire k bytes).result fun k' =>
        handleRequest twofoldWire depth k' bytes) ∧
    (∀ h, (activated twofoldWire 5 (new localPeer 0 ∅ fun n => ⟨n, List.Vector.replicate 32 0⟩ :
      Kademlia ListedNodes) (.request twofoldJson)).count h ≤ 1) ∧
    handleMessage twofoldWire 7 (new localPeer 0 ∅ fun n => ⟨n, List.Vector.replicate 32 0⟩ :
      Kademlia ListedNodes) (.request twofoldJson) =
    handleMessage twofoldWire 2 (new localPeer 0 ∅ fun n => ⟨n, List.Vector.replicate 32 0⟩)
      (.request twofoldJson) :=
  ⟨by decide +kernel, handlers_activated_once twofoldWire_payload 5 _ _⟩

end Kademlia

end Udp2p
