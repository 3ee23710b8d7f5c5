import Conformance.Plugin.Native
import Conformance.Proofs.Datum.Records
import Conformance.Proofs.Plugin.Logged
import Conformance.Proofs.Settings.Crossing

/-!
# Descriptors that cross the boundary

What the host reads of a descriptor is the descriptor that the plugin has
handed over (`Descriptor.ofRaw_raw`). All its numbers are words and its
lists nest four levels deep at most, so its text reads as the JSON value
that was written (`Descriptor.parse?_text`). And every record in that value
has each of its fields once with a value that the field accepts, so it is
read as it was (`Descriptor.reader_json`).

The settings take the other way, to the plugin, when it is started.
-/

namespace Conformance

open Reader (accepts_of entries_ofFields list_ofJson required_ofFields default_ofFields)

/-! ## Reading the JSON form -/

theorem Reader.nat_ofJson {n bound : Nat} (h : n < bound) (want : String) :
    Reader.nat bound want (.ofJson (.nat n)) = .ok n := by
  have hrange : (decide ((0 : Int) ≤ n) && decide ((n : Int) ≤ (bound : Int) - 1)) = true := by
    simp
    omega
  simp only [Reader.nat, Reader.int, Json.nat, Datum.ofJson, Datum.untag, hrange, if_true]
  rfl

theorem Reader.uint32_ofJson (n : UInt32) : Reader.uint32 (.ofJson (.nat n.toNat)) = .ok n := by
  rw [Reader.uint32, Reader.word32, Reader.nat_ofJson n.toNat_lt]
  simp [Except.map]

theorem HandlerRef.reader_ofJson (h : HandlerRef) :
    HandlerRef.reader (.ofJson (.nat h.number.toNat)) = .ok h := by
  rw [HandlerRef.reader, Reader.uint64, Reader.word64, Reader.nat_ofJson h.number.toNat_lt]
  simp [Except.map]

theorem InboundCapability.reader_json (dialect : Dialect) (c : InboundCapability) :
    InboundCapability.reader dialect (.ofJson c.json) = .ok c := by
  have hname : Reader.text (.ofJson (.str c.name)) = .ok c.name := rfl
  have hversion := Reader.uint32_ofJson c.version
  have hkeys : Reader.list dialect Reader.text (.ofJson (Json.texts c.configKeys))
      = .ok c.configKeys := list_ofJson (fun _ => rfl) c.configKeys
  have hhandler := c.handler.reader_ofJson
  refine Result.bind_eq_ok.mpr ⟨_, entries_ofFields ?_ (by simp), ?_⟩
  · simp only [Reader.Fits, List.forall_mem_cons]
    exact ⟨⟨_, rfl, accepts_of hname _⟩, ⟨_, rfl, accepts_of hversion _⟩,
      ⟨_, rfl, accepts_of hkeys _⟩, ⟨_, rfl, accepts_of hhandler _⟩, by simp⟩
  · exact Result.bind_eq_ok.mpr ⟨_, required_ofFields rfl hname,
      Result.bind_eq_ok.mpr ⟨_, required_ofFields rfl hversion,
        Result.bind_eq_ok.mpr ⟨_, default_ofFields rfl hkeys [],
          Result.bind_eq_ok.mpr ⟨_, required_ofFields rfl hhandler, rfl⟩⟩⟩⟩

theorem OutboundCapability.reader_json (dialect : Dialect) (c : OutboundCapability) :
    OutboundCapability.reader dialect (.ofJson c.json) = .ok c := by
  have hname : Reader.text (.ofJson (.str c.name)) = .ok c.name := rfl
  have hversion := Reader.uint32_ofJson c.version
  refine Result.bind_eq_ok.mpr ⟨_, entries_ofFields ?_ (by simp), ?_⟩
  · simp only [Reader.Fits, List.forall_mem_cons]
    exact ⟨⟨_, rfl, accepts_of hname _⟩, ⟨_, rfl, accepts_of hversion _⟩, by simp⟩
  · exact Result.bind_eq_ok.mpr ⟨_, required_ofFields rfl hname,
      Result.bind_eq_ok.mpr ⟨_, required_ofFields rfl hversion, rfl⟩⟩

theorem Descriptor.reader_json (dialect : Dialect) (d : Descriptor) :
    Descriptor.reader dialect (.ofJson d.json) = .ok d := by
  have hname : Reader.text (.ofJson (.str d.name)) = .ok d.name := rfl
  have hversion : Reader.text (.ofJson (.str d.version)) = .ok d.version := rfl
  have hinbound : Reader.list dialect (InboundCapability.reader dialect)
      (.ofJson (.arr (d.inbound.map InboundCapability.json))) = .ok d.inbound :=
    list_ofJson (InboundCapability.reader_json dialect) d.inbound
  have houtbound : Reader.list dialect (OutboundCapability.reader dialect)
      (.ofJson (.arr (d.outbound.map OutboundCapability.json))) = .ok d.outbound :=
    list_ofJson (OutboundCapability.reader_json dialect) d.outbound
  refine Result.bind_eq_ok.mpr ⟨_, entries_ofFields ?_ (by simp), ?_⟩
  · simp only [Reader.Fits, List.forall_mem_cons]
    exact ⟨⟨_, rfl, accepts_of hname _⟩, ⟨_, rfl, accepts_of hversion _⟩,
      ⟨_, rfl, accepts_of hinbound _⟩, ⟨_, rfl, accepts_of houtbound _⟩, by simp⟩
  · exact Result.bind_eq_ok.mpr ⟨_, required_ofFields rfl hname,
      Result.bind_eq_ok.mpr ⟨_, required_ofFields rfl hversion,
        Result.bind_eq_ok.mpr ⟨_, default_ofFields rfl hinbound [],
          Result.bind_eq_ok.mpr ⟨_, default_ofFields rfl houtbound [], rfl⟩⟩⟩⟩

/-! ## Reading the text -/

theorem Number.isWord_nat {n : Nat} (h : n < 0x10000000000000000) : Number.IsWord (.int n) := by
  constructor <;> omega

theorem InboundCapability.json_exact (c : InboundCapability) : c.json.IsExact := by
  have hversion := c.version.toNat_lt
  have hkeys : Json.elementsExact (c.configKeys.map .str) :=
    Json.elementsExact_map (fun _ => by exact trivial) c.configKeys
  exact ⟨trivial, Number.isWord_nat (by omega), hkeys,
    Number.isWord_nat c.handler.number.toNat_lt, trivial⟩

theorem OutboundCapability.json_exact (c : OutboundCapability) : c.json.IsExact := by
  have hversion := c.version.toNat_lt
  exact ⟨trivial, Number.isWord_nat (by omega), trivial⟩

theorem Descriptor.json_exact (d : Descriptor) : d.json.IsExact :=
  ⟨trivial, trivial, Json.elementsExact_map InboundCapability.json_exact d.inbound,
    Json.elementsExact_map OutboundCapability.json_exact d.outbound, trivial⟩

theorem InboundCapability.levels_json (c : InboundCapability) : c.json.levels ≤ 2 := by
  have hkeys : Json.elementLevels (c.configKeys.map .str) ≤ 0 :=
    Json.elementLevels_map_le (fun _ => Nat.le_refl 0) c.configKeys
  simp only [json, Json.texts, Json.nat, Json.levels, Json.memberLevels]
  omega

theorem OutboundCapability.levels_json (c : OutboundCapability) : c.json.levels ≤ 1 := by
  simp [json, Json.nat, Json.levels, Json.memberLevels]

theorem Descriptor.levels_json (d : Descriptor) : d.json.levels ≤ 4 := by
  have hinbound := Json.elementLevels_map_le InboundCapability.levels_json d.inbound
  have houtbound := Json.elementLevels_map_le OutboundCapability.levels_json d.outbound
  simp only [json, Json.levels, Json.memberLevels]
  omega

theorem Descriptor.parse?_text (d : Descriptor) : Json.parse? d.text = some d.json := by
  have hlevels := d.levels_json
  have hlimit : Json.depthLimit = 128 := rfl
  exact Json.parse?_text d.json_exact (by omega)

/-! ## Handing texts over -/

theorem Descriptor.nul_not_mem_text (d : Descriptor) : '\x00' ∉ d.text.toList :=
  d.json.nul_not_mem_text

theorem Descriptor.raw_eq (d : Descriptor) : d.raw = some (Utf8.encode d.text) := by
  rw [raw, RawText.write_of_no_nul d.nul_not_mem_text]

theorem Descriptor.ofRaw_raw (d : Descriptor) : Descriptor.ofRaw d.raw = .ok d := by
  rw [ofRaw, raw_eq, RawText.read_write d.nul_not_mem_text]
  dsimp only
  rw [d.parse?_text]
  dsimp only
  rw [d.reader_json]

namespace NativeModule

variable {τ : Type} (m : NativeModule τ)

/-- Whatever the settings, the module is called. -/
theorem start_calls (state : NativeState (Logged τ)) (h : Host) (s : Settings) :
    (m.logged.startPlugin state h s).state.memory.calls = state.memory.calls
      ++ [.start s.text (m.start state.memory.memory h s.text).result] := by
  simp only [startPlugin, s.raw_eq, logged, NativeReply.logged]
  cases (m.start state.memory.memory h s.text).result with
  | error payload => rfl
  | ok raw =>
      simp only [acceptDescriptor]
      cases Descriptor.ofRaw raw.descriptor.json <;> rfl

theorem start_representable (state : NativeState τ) (h : Host) (s : Settings) :
    (m.startPlugin state h s).outcome ≠ .failed (.other "settings are not representable") := by
  simp only [startPlugin, s.raw_eq]
  cases (m.start state.memory h s.text).result with
  | error payload => simp
  | ok raw =>
      simp only [acceptDescriptor]
      cases Descriptor.ofRaw raw.descriptor.json <;> simp

/-- **Texts at the boundary.** The text of a descriptor and the text of
settings hold no NUL and so are handed over as they are, and what is read
of them on the other side is the descriptor and the settings. A module that
is started is called with the text of its settings, which are never turned
away. -/
theorem descriptor_and_settings_cross (d : Descriptor) {s : Settings} (hs : s.Ordered) :
    ('\x00' ∉ d.text.toList ∧ d.raw = some (Utf8.encode d.text)
      ∧ Descriptor.ofRaw d.raw = .ok d)
    ∧ ('\x00' ∉ s.text.toList ∧ s.raw = .ok (some (Utf8.encode s.text))
      ∧ Settings.ofRaw (some (Utf8.encode s.text)) = s)
    ∧ ∀ (τ : Type) (m : NativeModule τ) (state : NativeState (Logged τ)) (h : Host),
      (m.logged.startPlugin state h s).state.memory.calls = state.memory.calls
          ++ [.start s.text (m.start state.memory.memory h s.text).result]
        ∧ (m.startPlugin state.unlogged h s).outcome
          ≠ .failed (.other "settings are not representable") :=
  ⟨⟨d.nul_not_mem_text, d.raw_eq, d.ofRaw_raw⟩,
    ⟨s.nul_not_mem_text, s.raw_eq, hs.ofRaw_encode⟩,
    fun _ m state h => ⟨m.start_calls state h s, m.start_representable state.unlogged h s⟩⟩

theorem descriptor_and_settings_cross_escaped :
    let d : Descriptor := {
      name := "watch\x00er", version := "1.0\n\"β\""
      inbound := [⟨"file-monitor", 4294967295, ["a\\b", "\x1f", ""], ⟨18446744073709551615⟩⟩]
      outbound := [⟨"file-state", 0⟩, ⟨"𝄞", 1⟩] }
    let s := Settings.ofList [("röot", ""), ("root", "C:\\\t"), ("", "\x00"), ("röot", "\"\"")]
    s.Ordered ∧ Descriptor.ofRaw d.raw = .ok d ∧ Settings.ofRaw (some (Utf8.encode s.text)) = s := by
  intro d s
  have hs : s.Ordered := Settings.ofList_ordered _
  obtain ⟨⟨-, -, hdescriptor⟩, ⟨-, -, hsettings⟩, -⟩ := descriptor_and_settings_cross d hs
  exact ⟨hs, hdescriptor, hsettings⟩

end NativeModule

end Conformance
