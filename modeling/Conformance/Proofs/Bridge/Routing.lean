import Conformance.Plugin.Rehearsed
import Conformance.Proofs.Bridge.Delivery
import Conformance.Proofs.Bridge.Lifecycle

/-!
# The routing of requests

A delivery asks the plugin for its descriptor, and routes the request by
what it gets, not by the descriptor that the bridge has kept. Names of
capabilities may repeat: the first one of the name decides alone, also
where a later one would accept the request (`Descriptor.Accepts`).

`route_eq_ok` and `route_eq_error` say what a descriptor does with a
request. The calls of the plugin are counted on the record of a bridge
whose plugin is recorded from here on (`Bridge.recorded`).
-/

namespace Conformance

/-! ## What a descriptor accepts -/

/-- The request has a configuration, and this is one of its keys. -/
def Json.Configures (request : Json) (key : String) : Prop :=
  ∃ members, request.get? "config" = some (.obj members) ∧ key ∈ members.map (·.1)

namespace Descriptor

variable {d : Descriptor} {name : String} {cap : InboundCapability} {request : Json}

/-- The first of the capabilities that have the name. -/
def First (d : Descriptor) (name : String) (cap : InboundCapability) : Prop :=
  ∃ before after, d.inbound = before ++ cap :: after
    ∧ cap.name = name ∧ ∀ c ∈ before, c.name ≠ name

/-- The first capability of the name accepts every key of the request. -/
structure Accepts (d : Descriptor) (name : String) (request : Json)
    (cap : InboundCapability) : Prop where
  first : d.First name cap
  keys : ∀ key, request.Configures key → key ∈ cap.configKeys

/-- Why a descriptor does not route a request. -/
inductive Refuses (d : Descriptor) (name : String) (request : Json) : BridgeFault → Prop
  | notAdvertised (hnone : ∀ cap ∈ d.inbound, cap.name ≠ name) :
    Refuses d name request (.capabilityNotAdvertised name)
  | unsupported {cap key} (hfirst : d.First name cap) (hkey : request.Configures key)
      (hnot : key ∉ cap.configKeys) :
    Refuses d name request (.unsupportedConfigKey name key)

theorem inbound?_eq_some : d.inbound? name = some cap ↔ d.First name cap := by
  unfold inbound? First
  rw [List.find?_eq_some_iff_append]
  constructor
  · rintro ⟨hname, before, after, heq, hbefore⟩
    exact ⟨before, after, heq, by simpa using hname, by simpa using hbefore⟩
  · rintro ⟨before, after, heq, hname, hbefore⟩
    exact ⟨by simpa using hname, before, after, heq, by simpa using hbefore⟩

theorem inbound?_eq_none : d.inbound? name = none ↔ ∀ cap ∈ d.inbound, cap.name ≠ name := by
  simp [inbound?]

/-- What a descriptor accepts it does not refuse. -/
theorem Accepts.not_refuses {fault : BridgeFault} (ha : d.Accepts name request cap) :
    ¬ d.Refuses name request fault := by
  intro hr
  have hfirst := inbound?_eq_some.mpr ha.first
  cases hr with
  | notAdvertised hnone =>
      rw [inbound?_eq_none.mpr hnone] at hfirst
      cases hfirst
  | unsupported hfirst' hkey hnot =>
      rw [inbound?_eq_some.mpr hfirst'] at hfirst
      cases hfirst
      exact hnot (ha.keys _ hkey)

end Descriptor

namespace Bridge

variable {σ : Type}

/-! ## Routes -/

theorem mem_configKeys {request : Json} {key : String} :
    key ∈ configKeys request ↔ request.Configures key := by
  unfold configKeys Json.Configures
  cases request.get? "config" with
  | none => simp
  | some config => cases config <;> simp [Json.obj?]

section

variable {d : Descriptor} {name : String} {request : Json}

/-- A route is the handler of a capability that accepts the request, or
else a reason why none does. -/
theorem route_cases (d : Descriptor) (name : String) (request : Json) :
    (∃ cap, d.Accepts name request cap ∧ route d name request = .ok cap.handler)
      ∨ ∃ fault, d.Refuses name request fault ∧ route d name request = .error fault := by
  unfold route
  cases hcap : d.inbound? name with
  | none => exact .inr ⟨_, .notAdvertised (Descriptor.inbound?_eq_none.mp hcap), rfl⟩
  | some cap =>
      have hfirst := Descriptor.inbound?_eq_some.mp hcap
      dsimp only
      cases hkey : (configKeys request).find? fun key => !cap.acceptsKey key with
      | none =>
          refine .inl ⟨cap, ⟨hfirst, ?_⟩, rfl⟩
          intro key hconf
          have haccepted := List.find?_eq_none.mp hkey key (mem_configKeys.mpr hconf)
          simpa [InboundCapability.acceptsKey] using haccepted
      | some key =>
          have hnot := List.find?_some hkey
          have hconf := mem_configKeys.mp (List.mem_of_find?_eq_some hkey)
          refine .inr ⟨_, .unsupported hfirst hconf ?_, rfl⟩
          simpa [InboundCapability.acceptsKey] using hnot

theorem route_eq_ok {cap : InboundCapability} (ha : d.Accepts name request cap) :
    route d name request = .ok cap.handler := by
  rcases route_cases d name request with ⟨cap', ha', hroute⟩ | ⟨fault, hrefuses, -⟩
  · have hsame := Descriptor.inbound?_eq_some.mpr ha'.first
    rw [Descriptor.inbound?_eq_some.mpr ha.first] at hsame
    cases hsame
    exact hroute
  · exact absurd hrefuses ha.not_refuses

theorem route_eq_error (hnone : ¬ ∃ cap, d.Accepts name request cap) :
    ∃ fault, route d name request = .error fault ∧ d.Refuses name request fault := by
  rcases route_cases d name request with ⟨cap, ha, -⟩ | ⟨fault, hrefuses, hroute⟩
  · exact absurd ⟨cap, ha⟩ hnone
  · exact ⟨fault, hroute, hrefuses⟩

end

theorem deliver_of_refused {b : Bridge σ} (hb : b.loaded = true) {h : Host} {d : Descriptor}
    (hd : (b.plugin.status b.state h).outcome = .done d) {name : String} {request : Json}
    {fault : BridgeFault} (hroute : route d name request = .error fault) :
    b.deliver h name request
      = (.error fault, { b.after (b.plugin.status b.state h) with descriptor := d }) := by
  rw [deliver, pollStatus_of_done hb hd]
  simp only [hroute]

theorem deliver_of_routed {b : Bridge σ} (hb : b.loaded = true) {h : Host} {d : Descriptor}
    (hd : (b.plugin.status b.state h).outcome = .done d) {name : String} {request : Json}
    {handler : HandlerRef} (hroute : route d name request = .ok handler) :
    let reply := b.plugin.deliver (b.plugin.status b.state h).state h handler request
    b.deliver h name request = (reply.outcome.checked "deliver",
      ({ b.after (b.plugin.status b.state h) with descriptor := d } : Bridge σ).after reply) := by
  rw [deliver, pollStatus_of_done hb hd]
  simp only [hroute]
  rfl

/-! ## Deliveries on record -/

/-- The bridge whose plugin is recorded from here on. -/
def recorded (b : Bridge σ) : Bridge (Recorded σ) :=
  ⟨b.plugin.recorded, ⟨b.state, []⟩, b.loaded, b.descriptor, b.channel⟩

theorem deliver_recorded (b : Bridge σ) (h : Host) (name : String) (request : Json) :
    b.deliver h name request = ((b.recorded.deliver h name request).1,
      (b.recorded.deliver h name request).2.unrecorded b.plugin) :=
  deliver_unrecorded (b := b.recorded) rfl h name request

/-- What one delivery calls of the plugin, how it ends, and the
descriptor that the bridge has then. -/
structure Delivers (b : Bridge σ) (h : Host) (name : String) (request : Json)
    (calls : List PluginCall) (answer : Except BridgeFault Unit) (d : Descriptor) : Prop where
  calls : (b.recorded.deliver h name request).2.state.calls = calls
  answer : (b.deliver h name request).1 = answer
  descriptor : (b.deliver h name request).2.currentDescriptor = .ok d

section

variable {b : Bridge σ} (hl : b.loaded = true) {h : Host} {name : String} {request : Json}

include hl

/-- A delivery is read off the bridge that the recorded one leaves. -/
theorem delivers_of_recorded {answer : Except BridgeFault Unit} {b' : Bridge (Recorded σ)}
    (hdel : b.recorded.deliver h name request = (answer, b')) :
    b.Delivers h name request b'.state.calls answer b'.descriptor := by
  have hplain := deliver_recorded b h name request
  have hloaded := (deliver_loaded hl h name request).1
  rw [hdel] at hplain
  refine ⟨by rw [hdel], by rw [hplain], ?_⟩
  simp only [currentDescriptor, hloaded, if_true]
  rw [hplain]
  rfl

theorem delivers_of_failed {fault : BridgeFault}
    (hfault : (b.plugin.status b.state h).outcome.checked "status" = .error fault) :
    b.Delivers h name request [.status] (.error fault) b.descriptor :=
  delivers_of_recorded hl ((status_failure (b := b.recorded) hl h hfault).2 name request)

variable {d : Descriptor} (hd : (b.plugin.status b.state h).outcome = .done d)

include hd

theorem delivers_of_refused {fault : BridgeFault} (hroute : route d name request = .error fault) :
    b.Delivers h name request [.status] (.error fault) d :=
  delivers_of_recorded hl (deliver_of_refused (b := b.recorded) hl hd hroute)

theorem delivers_of_routed {handler : HandlerRef} (hroute : route d name request = .ok handler) :
    b.Delivers h name request [.status, .deliver handler request]
      ((b.plugin.deliver (b.plugin.status b.state h).state h handler request).outcome.checked
        "deliver") d :=
  delivers_of_recorded hl (deliver_of_routed (b := b.recorded) hl hd hroute)

end

/-- **Routing.** A delivery asks a loaded plugin for its descriptor, once.
If that fails the fault is the answer, and the descriptor stays. If not,
the new descriptor is kept, however the delivery goes on: the request is
handed over exactly when the first capability of its name accepts all of
its configuration keys, once and unchanged, to the handler of that
capability. The calls are those of the plugin itself. -/
theorem deliver_routed {b : Bridge σ} (hl : b.loaded = true) (h : Host) (name : String)
    (request : Json) :
    b.deliver h name request = ((b.recorded.deliver h name request).1,
        (b.recorded.deliver h name request).2.unrecorded b.plugin)
      ∧ match (b.plugin.status b.state h).outcome.checked "status" with
        | .error fault => b.Delivers h name request [.status] (.error fault) b.descriptor
        | .ok d =>
          (∀ cap, d.Accepts name request cap →
            b.Delivers h name request [.status, .deliver cap.handler request]
              ((b.plugin.deliver (b.plugin.status b.state h).state h cap.handler
                request).outcome.checked "deliver") d)
          ∧ ((¬ ∃ cap, d.Accepts name request cap) → ∃ fault, d.Refuses name request fault
            ∧ b.Delivers h name request [.status] (.error fault) d) := by
  refine ⟨deliver_recorded b h name request, ?_⟩
  cases hstatus : (b.plugin.status b.state h).outcome.checked "status" with
  | error fault => exact delivers_of_failed hl hstatus
  | ok d =>
      have hd := Outcome.checked_eq_ok.mp hstatus
      constructor
      · intro cap ha
        exact delivers_of_routed hl hd (route_eq_ok ha)
      · intro hnone
        obtain ⟨fault, hroute, hrefuses⟩ := route_eq_error hnone
        exact ⟨fault, hrefuses, delivers_of_refused hl hd hroute⟩

/-! ## A plugin that changes its mind -/

namespace ChangedDescriptor

def host : Host :=
  ⟨.empty, fun _ => none, ⟨0, 0, 0, ⟨0, 0⟩, ⟨0, 0⟩, ⟨0, 0⟩⟩, ⟨fun _ _ _ => .nothing⟩⟩

/-- The descriptor with one capability twice. -/
def twice : Descriptor :=
  ⟨"p", "2", [⟨"ask", 1, [], ⟨9⟩⟩, ⟨"watch", 1, ["depth"], ⟨7⟩⟩, ⟨"watch", 2, ["mask"], ⟨8⟩⟩], []⟩

/-- A plugin whose status call returns a new descriptor, and which panics
at its first request. -/
def rehearsal : Rehearsal where
  start := .rest
  status := [⟨fun _ => [], .done, some twice⟩]
  deliver := [⟨fun _ => [], .panicked (.text "no"), none⟩]
  stop := .rest

def bridge : Bridge RehearsalRecord :=
  ⟨rehearsal.plugin, ⟨⟨"p", "1", [], []⟩, 0, [], none, 0⟩, true, ⟨"p", "1", [], []⟩,
    .bounded 4⟩

/-- A request with one key in its configuration. -/
def request (key : String) : Json := .obj [("config", .obj [(key, .null)])]

theorem configures {key other : String} : (request key).Configures other ↔ other = key := by
  simp [Json.Configures, Json.get?, request]

theorem first : twice.First "watch" ⟨"watch", 1, ["depth"], ⟨7⟩⟩ :=
  ⟨[⟨"ask", 1, [], ⟨9⟩⟩], [⟨"watch", 2, ["mask"], ⟨8⟩⟩], rfl, rfl, by decide⟩

end ChangedDescriptor

open ChangedDescriptor in
/-- The first capability of the name decides, though the second one has
the key. Both deliveries leave the new descriptor, also the one in which
the plugin panics. -/
theorem deliver_routed_twice :
    bridge.loaded = true
      ∧ bridge.Delivers host "watch" (request "depth")
          [.status, .deliver ⟨7⟩ (request "depth")] (.error (.pluginFault "deliver" "no")) twice
      ∧ ∃ fault, twice.Refuses "watch" (request "mask") fault
        ∧ bridge.Delivers host "watch" (request "mask") [.status] (.error fault) twice := by
  refine ⟨rfl, ?_, ?_⟩
  · refine (deliver_routed (b := bridge) rfl host "watch" (request "depth")).2.1 _ ⟨first, ?_⟩
    intro key hkey
    rw [configures.mp hkey]
    exact List.mem_singleton_self _
  · refine (deliver_routed (b := bridge) rfl host "watch" (request "mask")).2.2 ?_
    rintro ⟨cap, ha⟩
    refine ha.not_refuses (.unsupported first (configures.mpr rfl) ?_)
    decide

end Bridge

end Conformance
