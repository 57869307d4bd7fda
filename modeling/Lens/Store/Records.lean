import Lens.Store.Actor

/-!
# What a batch leaves in its flow

Storing a message changes its own flow only, and adds one record at the end of
that flow's messages (`messagesOf_storeMessage`).
-/

namespace Lens.Store

open List

/-! ## Flows by identifier -/

/-- A change to the first flow with an identifier is the change of what is found. -/
theorem findFlow_updateFlow (flowId : FlowId) {f : StoredFlow → StoredFlow}
    (hf : ∀ flow, (f flow).record.envelope.flowId = flow.record.envelope.flowId) :
    ∀ flows : List StoredFlow,
      findFlow (updateFlow flows flowId f) flowId = (findFlow flows flowId).map f
  | [] => rfl
  | flow :: flows => by
    by_cases h : flow.record.envelope.flowId = some flowId
    · simp [updateFlow, findFlow, h, hf]
    · have ih := findFlow_updateFlow flowId hf flows
      rw [findFlow, findFlow] at ih
      simp [updateFlow, findFlow, h, ih]

/-- Other flows are found as before. -/
theorem findFlow_updateFlow_of_ne {flowId other : FlowId} (hne : other ≠ flowId)
    {f : StoredFlow → StoredFlow}
    (hf : ∀ flow, (f flow).record.envelope.flowId = flow.record.envelope.flowId) :
    ∀ flows : List StoredFlow,
      findFlow (updateFlow flows flowId f) other = findFlow flows other
  | [] => rfl
  | flow :: flows => by
    have ih := findFlow_updateFlow_of_ne hne hf flows
    rw [findFlow, findFlow] at ih
    by_cases h : flow.record.envelope.flowId = some flowId
    · have hother : ¬ flow.record.envelope.flowId = some other := by
        rw [h]
        exact fun heq => hne (Option.some.inj heq).symm
      simp [updateFlow, findFlow, h, hf, hne.symm]
    · by_cases ho : flow.record.envelope.flowId = some other
      · simp [updateFlow, findFlow, ho, hne]
      · simp [updateFlow, findFlow, h, ho, ih]

/-- What a change of a flow does not touch can be read off all flows as before. -/
theorem map_updateFlow {α : Type} {g : StoredFlow → α} {f : StoredFlow → StoredFlow}
    (hf : ∀ flow, g (f flow) = g flow) (flowId : FlowId) :
    ∀ flows : List StoredFlow, (updateFlow flows flowId f).map g = flows.map g
  | [] => rfl
  | flow :: flows => by
    rw [updateFlow]
    split
    · rw [map_cons, map_cons, hf]
    · rw [map_cons, map_cons, map_updateFlow hf flowId flows]

@[simp] theorem addReport_record (flow : StoredFlow) (report : Option PluginRunReport) :
    (addReport flow report).record = flow.record := by
  cases report with
  | none => rfl
  | some report => rfl

@[simp] theorem addReport_messages (flow : StoredFlow) (report : Option PluginRunReport) :
    (addReport flow report).messages = flow.messages := by
  cases report with
  | none => rfl
  | some report => rfl

namespace StoreActor

variable {η : Type} (s : StoreActor η) (flowId : FlowId) (timestamp : TimestampPair)

/-- The messages kept for a flow. -/
def messagesOf (flowId : FlowId) : Option (List MessageRecord) :=
  (findFlow s.flows flowId).map StoredFlow.messages

/-- The protocol recorded for a flow. -/
def protocolOf (flowId : FlowId) : Option String :=
  (findFlow s.flows flowId).bind fun flow => flow.record.protocol

theorem keepMessage_flowId (decoded : DecodedMessage) (flow : StoredFlow) :
    (s.keepMessage flowId timestamp decoded flow).record.envelope.flowId =
      flow.record.envelope.flowId := by
  simp [keepMessage]

/-- A stored message is one more record of its flow. -/
theorem messagesOf_storeMessage (decoded : DecodedMessage) :
    (s.storeMessage flowId timestamp decoded).messagesOf flowId =
      (s.messagesOf flowId).map (· ++ [s.recordWith s.reveal flowId timestamp decoded]) := by
  rw [messagesOf, storeMessage, messagesOf,
    findFlow_updateFlow flowId (s.keepMessage_flowId flowId timestamp decoded)]
  cases findFlow s.flows flowId with
  | none => rfl
  | some flow => simp [keepMessage]

/-- A message that names gRPC makes its flow a gRPC flow. -/
theorem protocolOf_storeMessage (decoded : DecodedMessage) :
    (s.storeMessage flowId timestamp decoded).protocolOf flowId =
      (findFlow s.flows flowId).bind fun flow =>
        if findHeader decoded.headers "lens-protocol" = some "grpc" then some "grpc"
        else flow.record.protocol := by
  rw [protocolOf, storeMessage,
    findFlow_updateFlow flowId (s.keepMessage_flowId flowId timestamp decoded)]
  cases findFlow s.flows flowId with
  | none => rfl
  | some flow => simp [keepMessage]

/-- Storing a batch leaves the decoders. -/
theorem storeBatch_decoders (batch : DecodeBatch) :
    (s.storeBatch flowId timestamp batch).decoders = s.decoders := by
  have hfold : ∀ (ms : List DecodedMessage) (s : StoreActor η),
      (ms.foldl (fun s m => s.storeMessage flowId timestamp m) s).decoders = s.decoders := by
    intro ms
    induction ms with
    | nil => exact fun _ => rfl
    | cons m ms ih => exact fun s => ih _
  rw [storeBatch, hfold]
  cases batch.desynchronized with
  | none => rfl
  | some reason => rfl

/-- The batch of one message that completes without a desynchronization. -/
theorem storeBatch_single (decoded : DecodedMessage) :
    s.storeBatch flowId timestamp ⟨[decoded], none⟩ = s.storeMessage flowId timestamp decoded := rfl

end StoreActor

end Lens.Store
