import Lens.Store.Export

/-!
# The terminal view

`TuiApp` is what the terminal shows of a snapshot: the flows that match a filter and one of
them selected.  The selection is a position among the flows that match.  Keys and refreshes
keep it valid (`run_valid`), but a position stays with its flow only while as many matching
flows stand before it (`refresh_keeps_iff`).
-/

namespace Lens.Tui

open List
open Store (StoredFlow StoreSnapshot)

/-! ## The filter -/

structure FlowFilter where
  protocol : Option String
  state : Option FlowState
  minLatencyNanos : Option Nat
  search : String
deriving DecidableEq, Repr

namespace FlowFilter

def default : FlowFilter := ⟨none, none, none, ""⟩

/-- The text that is searched. -/
def haystack (flow : StoredFlow) : String :=
  let identity := flow.record.identity
  Str.join " " [flow.record.client.text, flow.record.upstream.text,
    flow.record.protocol.getD "unknown", flow.record.state.text, flow.failure.getD "",
    (identity.map fun i => (i.service.or i.process).getD "unknown").getD "",
    (identity.bind fun i => i.process).getD "", (identity.bind fun i => i.container).getD "",
    Str.join " " (flow.messages.map fun message => message.summary)]

/-- `FlowFilter::matches`. -/
def passes (filter : FlowFilter) (flow : StoredFlow) : Bool :=
  if filter.protocol.any fun protocol => flow.record.protocol ≠ some protocol then false
  else if filter.state.any fun state => flow.record.state ≠ state then false
  else if filter.minLatencyNanos.any fun minimum =>
    (flow.messages.filterMap fun message => message.latencyNanos).max?.getD 0 < minimum then false
  else if Str.trim filter.search = "" then true
  else Str.contains (Str.toAsciiLowercase (haystack flow)) (Str.toAsciiLowercase filter.search)

end FlowFilter

/-! ## The view -/

structure TuiApp where
  snapshot : StoreSnapshot
  filter : FlowFilter
  selected : Nat
  inspectorScroll : Nat
  dropped : Nat
  reveal : Bool
  searchMode : Bool
  followTail : Bool
deriving DecidableEq, Repr

inductive KeyCode where
  | esc
  | enter
  | backspace
  | down
  | up
  | home
  | «end»
  | pageDown
  | pageUp
  | char (character : Char)
  | other
deriving DecidableEq, Repr

/-- A key, and whether the control key is held. -/
structure KeyEvent where
  code : KeyCode
  control : Bool
deriving DecidableEq, Repr

namespace TuiApp

def visibleIndices (app : TuiApp) : List Nat :=
  app.snapshot.flows.zipIdx.filterMap fun p => if app.filter.passes p.1 then some p.2 else none

def selectedFlow (app : TuiApp) : Option StoredFlow :=
  app.visibleIndices[app.selected]?.bind fun index => app.snapshot.flows[index]?

def selectNext (app : TuiApp) : TuiApp :=
  let length := app.visibleIndices.length
  if 0 < length then
    { app with
      followTail := false
      selected := min (app.selected + 1) (length - 1)
      inspectorScroll := 0 }
  else app

def selectPrevious (app : TuiApp) : TuiApp :=
  { app with followTail := false, selected := app.selected - 1, inspectorScroll := 0 }

def selectTail (app : TuiApp) : TuiApp :=
  { app with selected := app.visibleIndices.length - 1, inspectorScroll := 0 }

def clampSelection (app : TuiApp) : TuiApp :=
  { app with selected := min app.selected (app.visibleIndices.length - 1) }

def resetAfterFilter (app : TuiApp) : TuiApp := selectTail { app with followTail := true }

def new (snapshot : StoreSnapshot) (reveal : Bool) (dropped : Nat) : TuiApp :=
  selectTail ⟨snapshot, .default, 0, 0, dropped, reveal, false, true⟩

def refresh (app : TuiApp) (snapshot : StoreSnapshot) (dropped : Nat) : TuiApp :=
  let app := { app with snapshot, dropped }
  if app.followTail then app.selectTail else app.clampSelection

/-- The filter changed, and the selection with it. -/
def refilter (app : TuiApp) (filter : FlowFilter) : TuiApp := resetAfterFilter { app with filter }

/-- One key, and whether the view is left. -/
def handleKey (app : TuiApp) (key : KeyEvent) : TuiApp × Bool :=
  let filter := app.filter
  if key.control ∧ key.code = .char 'c' then (app, true)
  else if app.searchMode then
    match key.code with
    | .esc | .enter => ({ app with searchMode := false }, false)
    | .backspace =>
      (app.refilter { filter with search := String.ofList filter.search.toList.dropLast }, false)
    | .char character =>
      if key.control then (app, false)
      else (app.refilter { filter with search := filter.search.push character }, false)
    | _ => (app, false)
  else
    match key.code with
    | .char 'q' => (app, true)
    | .down | .char 'j' => (app.selectNext, false)
    | .up | .char 'k' => (app.selectPrevious, false)
    | .home => ({ app with followTail := false, selected := 0, inspectorScroll := 0 }, false)
    | .end => (selectTail { app with followTail := true }, false)
    | .pageDown => ({ app with inspectorScroll := min (app.inspectorScroll + 8) 65535 }, false)
    | .pageUp => ({ app with inspectorScroll := app.inspectorScroll - 8 }, false)
    | .char 'p' =>
      let protocol := match filter.protocol with
        | none => some "http1"
        | some "http1" => some "postgres"
        | some "postgres" => some "tcp"
        | _ => none
      (app.refilter { filter with protocol }, false)
    | .char 's' =>
      let state := match filter.state with
        | none => some .open
        | some .open => some .closed
        | some .closed => some .failed
        | some .failed => none
      (app.refilter { filter with state }, false)
    | .char 'l' =>
      let minLatencyNanos := match filter.minLatencyNanos with
        | none => some 1000000
        | some 1000000 => some 10000000
        | some 10000000 => some 100000000
        | some 100000000 => some 1000000000
        | _ => none
      (app.refilter { filter with minLatencyNanos }, false)
    | .char '/' => (refilter { app with searchMode := true } { filter with search := "" }, false)
    | .char 'x' => (app.refilter .default, false)
    | _ => (app, false)

/-- The flows that match. -/
def shown (app : TuiApp) : List StoredFlow := app.snapshot.flows.filter app.filter.passes

/-- The visible indices are those of the flows that match. -/
theorem visible_eq (app : TuiApp) : ∃ rows : List (StoredFlow × Nat),
    app.visibleIndices = rows.map Prod.snd ∧ app.shown = rows.map Prod.fst ∧
      ∀ p ∈ rows, app.snapshot.flows[p.2]? = some p.1 := by
  refine ⟨app.snapshot.flows.zipIdx.filter fun p => app.filter.passes p.1, ?_, ?_, fun p hp => ?_⟩
  · rw [visibleIndices]
    induction app.snapshot.flows.zipIdx with
    | nil => rfl
    | cons p rows ih =>
      rw [filterMap_cons, filter_cons, ih]
      split <;> simp_all
  · have hmap := @filter_map _ _ Prod.fst app.filter.passes app.snapshot.flows.zipIdx
    rwa [zipIdx_map_fst] at hmap
  · exact mem_zipIdx_iff_getElem?.mp (mem_of_mem_filter hp)

theorem length_visibleIndices (app : TuiApp) : app.visibleIndices.length = app.shown.length := by
  obtain ⟨rows, hvisible, hshown, -⟩ := app.visible_eq
  rw [hvisible, hshown, length_map, length_map]

theorem selectedFlow_eq (app : TuiApp) : app.selectedFlow = app.shown[app.selected]? := by
  obtain ⟨rows, hvisible, hshown, hrows⟩ := app.visible_eq
  rw [selectedFlow, hvisible, hshown, getElem?_map, getElem?_map]
  cases hrow : rows[app.selected]? with
  | none => rfl
  | some p => exact hrows p (mem_of_getElem? hrow)

/-! ## The selection is valid -/

/-- What happens to a view. -/
inductive Event where
  | key (key : KeyEvent)
  | refresh (snapshot : StoreSnapshot) (dropped : Nat)

def step (app : TuiApp) : Event → TuiApp
  | .key key => (app.handleKey key).1
  | .refresh snapshot dropped => app.refresh snapshot dropped

def run (app : TuiApp) (events : List Event) : TuiApp := events.foldl step app

/-- The selection is a position of the visible list, the last one when it follows the tail. -/
structure Valid (app : TuiApp) : Prop where
  within : app.selected ≤ app.visibleIndices.length - 1
  tail : app.followTail = true → app.selected = app.visibleIndices.length - 1

theorem valid_selectTail (app : TuiApp) : app.selectTail.Valid := ⟨Nat.le_refl _, fun _ => rfl⟩

variable {app : TuiApp}

theorem Valid.handleKey (h : app.Valid) (key : KeyEvent) : (app.handleKey key).1.Valid := by
  have hfilter : ∀ (app : TuiApp) filter, (app.refilter filter).Valid :=
    fun _ _ => valid_selectTail _
  unfold TuiApp.handleKey
  dsimp only
  split
  · exact h
  split
  · split
    any_goals exact hfilter _ _
    · exact ⟨h.within, h.tail⟩
    · exact ⟨h.within, h.tail⟩
    · split
      · exact h
      · exact hfilter _ _
    · exact h
  · have hnext : app.selectNext.Valid := by
      unfold selectNext
      dsimp only
      split
      · exact ⟨Nat.min_le_right _ _, by rintro ⟨⟩⟩
      · exact h
    have hprevious : app.selectPrevious.Valid :=
      ⟨Nat.le_trans (Nat.sub_le _ _) h.within, by rintro ⟨⟩⟩
    split
    any_goals exact hfilter _ _
    any_goals exact hnext
    any_goals exact hprevious
    any_goals exact h
    · exact ⟨Nat.zero_le _, by rintro ⟨⟩⟩
    · exact ⟨h.within, h.tail⟩
    · exact ⟨h.within, h.tail⟩

theorem Valid.step {app : TuiApp} (h : app.Valid) (event : Event) : (app.step event).Valid := by
  cases event with
  | key key => exact h.handleKey key
  | refresh snapshot dropped =>
    unfold TuiApp.step refresh
    dsimp only
    split
    · exact valid_selectTail _
    · next hoff => exact ⟨Nat.min_le_right _ _, fun hon => absurd hon hoff⟩

theorem Valid.run (h : app.Valid) (events : List Event) : (app.run events).Valid := by
  induction events generalizing app with
  | nil => exact h
  | cons event events ih => exact ih (h.step event)

/-- After any keys and refreshes a flow is selected if one matches, and it is the last of
them while the view follows the tail. -/
theorem run_valid (snapshot : StoreSnapshot) (reveal : Bool) (dropped : Nat) (events : List Event) :
    let app := (new snapshot reveal dropped).run events
    (app.shown ≠ [] →
      app.selected < app.visibleIndices.length ∧ app.selectedFlow.isSome = true) ∧
    (app.shown = [] → app.selectedFlow = none) ∧
    (app.followTail = true → app.selectedFlow = app.shown.getLast?) := by
  have hvalid : ((new snapshot reveal dropped).run events).Valid := (valid_selectTail _).run events
  generalize (new snapshot reveal dropped).run events = app at hvalid
  obtain ⟨hwithin, htail⟩ := hvalid
  rw [length_visibleIndices] at hwithin htail
  simp only [selectedFlow_eq, length_visibleIndices]
  refine ⟨fun hne => ?_, fun hnil => by rw [hnil]; rfl, fun hon => ?_⟩
  · have hpos := length_pos_of_ne_nil hne
    have hlt : app.selected < app.shown.length := by omega
    exact ⟨hlt, by rw [getElem?_eq_getElem hlt]; rfl⟩
  · rw [htail hon, getLast?_eq_getElem?]

/-! ## The selection and its flow -/

/-- The identity of a flow. -/
def flowId (flow : StoredFlow) : Option FlowId := flow.record.envelope.flowId

section

variable {snapshot : StoreSnapshot} {dropped : Nat}
  {before after : List StoredFlow} {old flow : StoredFlow}

/-- A refresh without the tail keeps the selected flow, which is still there and still
matches, exactly if as many matching flows as before stand before it, or fewer and none
after it.  The scroll position stays in any case. -/
theorem refresh_keeps_iff (hoff : app.followTail = false) (hold : app.selectedFlow = some old)
    (hids : (snapshot.flows.map flowId).Nodup) (hnew : snapshot.flows = before ++ flow :: after)
    (hid : flowId flow = flowId old) (hpass : app.filter.passes flow = true) :
    ((app.refresh snapshot dropped).selectedFlow.map flowId = app.selectedFlow.map flowId ∧
        (app.refresh snapshot dropped).inspectorScroll = app.inspectorScroll) ↔
      before.countP app.filter.passes = app.selected ∨
        before.countP app.filter.passes < app.selected ∧ after.countP app.filter.passes = 0 := by
  have hrefresh : app.refresh snapshot dropped =
      clampSelection { app with snapshot, dropped } := by
    rw [refresh, hoff]
    rfl
  have hshown : (app.refresh snapshot dropped).shown =
      before.filter app.filter.passes ++ flow :: after.filter app.filter.passes := by
    rw [hrefresh, ← filter_cons_of_pos hpass, ← filter_append, ← hnew]
    rfl
  have hcount : (app.refresh snapshot dropped).shown.length =
      before.countP app.filter.passes + after.countP app.filter.passes + 1 := by
    rw [hshown, length_append, length_cons, countP_eq_length_filter, countP_eq_length_filter]
    rfl
  have hselected : (app.refresh snapshot dropped).selected = min app.selected
      (before.countP app.filter.passes + after.countP app.filter.passes) := by
    rw [← Nat.add_sub_cancel (before.countP app.filter.passes + _) 1, ← hcount,
      ← length_visibleIndices, hrefresh]
    rfl
  have hscroll : (app.refresh snapshot dropped).inspectorScroll = app.inspectorScroll := by
    rw [hrefresh]
    rfl
  -- Flows that are shown have their own identities, so the one at the position is the flow
  -- exactly if its own position is this one.
  have hnodup : ((app.refresh snapshot dropped).shown.map flowId).Nodup := by
    refine hids.sublist (Sublist.map flowId ?_)
    rw [hrefresh]
    exact filter_sublist
  have hplace :
      ((app.refresh snapshot dropped).shown.map flowId)[before.countP app.filter.passes]? =
      some (flowId flow) := by
    rw [hshown, countP_eq_length_filter, getElem?_map, getElem?_append_right (Nat.le_refl _),
      Nat.sub_self]
    rfl
  rw [and_iff_left hscroll, selectedFlow_eq, ← getElem?_map, hold, Option.map_some, ← hid, ← hplace,
    getElem?_inj _ hnodup, hselected]
  · omega
  · rw [length_map, hcount, hselected]
    omega

end

/-- A store of three flows, numbered on from the first. -/
def threeFlows (first : FlowId) : StoreSnapshot where
  flows := [first, first + 1, first + 2].map fun id =>
    ⟨FlowRecord.new { EventEnvelope.new "flow.opened" 1 .proxy with flowId := some id }
      ⟨"127.0.0.1", 5000⟩ ⟨"10.0.0.1", 80⟩, 0, 0, none, none, [], [], 0⟩
  evicted := first - 1

/-- The view of the flows 1, 2 and 3 with flow 2 picked by two keys. -/
def secondPicked : TuiApp :=
  (new (threeFlows 1) false 0).run [.key ⟨.home, false⟩, .key ⟨.down, false⟩]

/-- The flows 1, 2 and 3, and a fourth. -/
def fourFlows : StoreSnapshot where
  flows := (threeFlows 1).flows ++ (threeFlows 4).flows.take 1
  evicted := 0

/-- When flow 4 comes without an eviction, flow 2 stays selected. -/
theorem keeps_secondPicked :
    (secondPicked.refresh fourFlows 3).shown.map flowId = [some 1, some 2, some 3, some 4] ∧
      (secondPicked.refresh fourFlows 3).selectedFlow.map flowId =
        secondPicked.selectedFlow.map flowId ∧
      (secondPicked.refresh fourFlows 3).inspectorScroll = secondPicked.inspectorScroll :=
  ⟨by decide, (@refresh_keeps_iff _ _ _ [_] [_, _] _ _ rfl rfl (by decide) rfl rfl
    (by decide)).mpr (.inl (by decide))⟩

/-- When flow 4 comes and flow 1 is evicted, flow 3 is selected in the place of flow 2. -/
theorem moves_to_next :
    secondPicked.followTail = false ∧ secondPicked.selectedFlow.bind flowId = some 2 ∧
      (secondPicked.refresh (threeFlows 2) 0).shown.map flowId = [some 2, some 3, some 4] ∧
      (secondPicked.refresh (threeFlows 2) 0).selectedFlow.bind flowId = some 3 := by
  decide

end TuiApp

end Lens.Tui
