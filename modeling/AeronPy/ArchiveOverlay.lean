import AeronPy.Archive

/-!
# Is the archive configuration a faithful overlay?

For keyword arguments of their documented types, `connects_iff` says when the constructor
gets as far as `connect`, and `overlay_iff` that the context it connects with is then the
overlay of keyword arguments, environment and base iff `control_term_buffer_sparse` is not
given or is `True`.
-/

namespace AeronPy

namespace Archive

variable {O : Type} [Pybind O]

/-- Every recognised key that is given has a value of its documented type. -/
structure Documented (args : Kwargs O) : Prop where
  configFile : ∀ v, args.lookup configFileKey = some v → SettingType.string.Documents v
  setting : ∀ (i : ArchiveSetting) v, args.lookup i.key = some v → i.type.Documents v

/-- The config file, where one is given, has a name in UTF-8 and loads. -/
def Loads (client : ArchiveClient) (args : Kwargs O) : Prop :=
  ∀ v, args.lookup configFileKey = some v →
    ∃ file context, SettingType.string.Means v file ∧ client.configuration file = .ok context

/-- Every value given fits its setting: integers in range, strings without lone surrogates. -/
def Fits (args : Kwargs O) : Prop :=
  ∀ (i : ArchiveSetting) v, args.lookup i.key = some v → ∃ x, i.type.Means v x

/-- The context is the overlay of the keyword arguments over the environment over the base. -/
def FaithfulOverlay (client : ArchiveClient) (env : Option StdString) (args : Kwargs O)
    (context : ArchiveContext) : Prop :=
  ∃ base, baseContext client args = .ok base ∧
    ∀ i : ArchiveSetting, KeyedOverlay.Faithful ArchiveSetting.key
      (fun i v x => i.type.Means v x) args.lookup (environment env base) context i

variable [LawfulPybind O] {client : ArchiveClient} {env : Option StdString} {args : Kwargs O}

theorem exists_baseContext_iff (hdoc : Documented args) :
    (∃ base, baseContext client args = .ok base) ↔ Loads client args := by
  unfold baseContext Loads
  cases hfile : args.lookup configFileKey with
  | none => exact iff_of_true ⟨client.defaults, rfl⟩ nofun
  | some v =>
    have hmeans := fun file => SettingType.caster_eq_some_iff (x := file) (hdoc.configFile v hfile)
    constructor
    · rintro ⟨base, hbase⟩ v' hv'
      obtain ⟨file, hcast, hload⟩ := bind_eq_ok.mp hbase
      rw [← Option.some.inj hv']
      exact ⟨file, base, (hmeans file).mp (cast_eq_ok.mp hcast), hload⟩
    · intro hall
      obtain ⟨file, base, hfile', hload⟩ := hall v rfl
      exact ⟨base, bind_eq_ok.mpr ⟨file, cast_eq_ok.mpr ((hmeans file).mpr hfile'), hload⟩⟩

theorem no_failure_iff (hdoc : Documented args) :
    KeyedOverlay.failure contextProperties args.lookup = none ↔ Fits args := by
  rw [KeyedOverlay.failure_eq_none_iff]
  constructor
  · intro hall i v hv
    obtain ⟨b, hb, rfl⟩ := exists_branch (O := O) i
    obtain ⟨o, ho⟩ := hall b hb
    rw [KeyedOverlay.Branch.value_of_some ((congrArg args.lookup (key_eq hb)).trans hv)] at ho
    obtain ⟨x, hx⟩ := (exists_convert_iff hb v).mp ⟨o, ho⟩
    exact ⟨x, (SettingType.caster_eq_some_iff (hdoc.setting _ v hv)).mp hx⟩
  · intro hfits b hb
    cases hd : args.lookup b.key with
    | none => exact ⟨none, KeyedOverlay.Branch.value_of_none hd⟩
    | some v =>
      have hv : args.lookup b.setting.key = some v := by rw [← key_eq hb, hd]
      obtain ⟨x, hx⟩ := hfits b.setting v hv
      rw [KeyedOverlay.Branch.value_of_some hd, exists_convert_iff hb]
      exact ⟨x, (SettingType.caster_eq_some_iff (hdoc.setting _ v hv)).mpr hx⟩

/-- When the constructor calls `connect`. -/
theorem connects_iff (hdoc : Documented args) :
    (∃ context, archive client env args = .ok context) ↔ Loads client args ∧ Fits args := by
  rw [← exists_baseContext_iff hdoc, ← no_failure_iff hdoc]
  constructor
  · rintro ⟨context, h⟩
    obtain ⟨base, hbase, hoverlay⟩ := bind_eq_ok.mp h
    exact ⟨⟨base, hbase⟩, KeyedOverlay.exists_overlay_iff.mp ⟨context, hoverlay⟩⟩
  · rintro ⟨⟨base, hbase⟩, hfailure⟩
    obtain ⟨context, hoverlay⟩ := KeyedOverlay.exists_overlay_iff.mpr hfailure
    exact ⟨context, bind_eq_ok.mpr ⟨base, hbase, hoverlay⟩⟩

section Settings

variable {base context : ArchiveContext}

/-- Every setting but one always has the value it should have. -/
theorem faithful_of_ne (hdoc : Documented args)
    (h : KeyedOverlay.overlay contextProperties args.lookup base = .ok context)
    {i : ArchiveSetting} (hi : i ≠ .controlTermBufferSparse) :
    KeyedOverlay.Faithful ArchiveSetting.key (fun i v x => i.type.Means v x) args.lookup base
      context i := by
  obtain ⟨b, hb, rfl⟩ := exists_branch (O := O) i
  have hsparse : b ≠ controlTermBufferSparse := fun hb' => hi (congrArg _ hb')
  rw [KeyedOverlay.faithful_iff nodup_settings _ h hb (key_eq hb)]
  intro v o hv ho
  -- what is stored is the cast of the value, which is what the value means
  obtain ⟨x, hx, rfl⟩ := (convert_ok_of_ne hb hsparse).mp ho
  rw [key_eq hb] at hv
  exact (SettingType.caster_eq_some_iff (hdoc.setting _ v hv)).mp hx

/-- The sparse setting is stored as `true`, so it is faithful for `True` only. -/
theorem faithful_sparse_iff (hdoc : Documented args)
    (h : KeyedOverlay.overlay contextProperties args.lookup base = .ok context) :
    KeyedOverlay.Faithful ArchiveSetting.key (fun i v x => i.type.Means v x) args.lookup base
        context .controlTermBufferSparse ↔
      ∀ v, args.lookup controlTermBufferSparseKey = some v → v = Pybind.pyBool true := by
  have hb : controlTermBufferSparse ∈ contextProperties (O := O) := by
    simp [contextProperties]
  have hiff := KeyedOverlay.faithful_iff nodup_settings (fun i v x => i.type.Means v x) h hb
    (key_eq hb)
  refine hiff.trans ⟨fun hall v hv => ?_, fun hall v o hv ho => ?_⟩
  · obtain ⟨b, hvb⟩ := hdoc.setting .controlTermBufferSparse v hv
    have hcast : Pybind.castBool v = some b := hvb ▸ LawfulPybind.castBool_bool b
    exact hall v (some true) hv (sparse_convert_ok.mpr ⟨⟨b, hcast⟩, rfl⟩)
  · -- `true` is stored, whatever was cast
    obtain ⟨-, rfl⟩ := sparse_convert_ok.mp ho
    exact hall v hv

end Settings

/-! ## The overlay -/

/-- The constructor connects exactly with arguments that load and fit, and the context it
connects with is the faithful overlay iff `control_term_buffer_sparse` is absent or `True`. -/
theorem overlay_iff (client : ArchiveClient) (env : Option StdString) {args : Kwargs O}
    (hdoc : Documented args) :
    ((∃ context, archive client env args = .ok context) ↔ Loads client args ∧ Fits args) ∧
      ∀ context, archive client env args = .ok context →
        (FaithfulOverlay client env args context ↔
          ∀ v, args.lookup controlTermBufferSparseKey = some v → v = Pybind.pyBool true) := by
  refine ⟨connects_iff hdoc, fun context h => ?_⟩
  obtain ⟨base, hbase, hoverlay⟩ := bind_eq_ok.mp h
  rw [← faithful_sparse_iff hdoc hoverlay]
  constructor
  · -- the base is the one that the constructor started from
    rintro ⟨base', hbase', hall⟩
    rw [hbase, Except.ok.injEq] at hbase'
    exact hbase' ▸ hall .controlTermBufferSparse
  · intro hsparse
    refine ⟨base, hbase, fun i => ?_⟩
    by_cases hi : i = .controlTermBufferSparse
    · exact hi ▸ hsparse
    · exact faithful_of_ne hdoc hoverlay hi

/-- The settings the archive client documents as its defaults. -/
def defaultContext : ArchiveContext
  | .aeronDirectoryName => "/dev/shm/aeron-default".toUTF8.toList
  | .messageTimeoutNs => (5000000000 : Int64)
  | .controlRequestChannel => "aeron:udp?endpoint=localhost:8010".toUTF8.toList
  | .controlRequestStreamId => (10 : Int32)
  | .controlResponseChannel => "aeron:udp?endpoint=localhost:8020".toUTF8.toList
  | .controlResponseStreamId => (20 : Int32)
  | .recordingEventsChannel => "aeron:udp?control-mode=dynamic|control=localhost:8030".toUTF8.toList
  | .recordingEventsStreamId => (30 : Int32)
  | .controlTermBufferSparse => true
  | .controlTermBufferLength => (65536 : Int32)
  | .controlMtuLength => (1408 : Int32)

/-- An archive client that has no config files. -/
def defaultClient : ArchiveClient := ⟨defaultContext, fun _ => .error (.foreign .runtimeError)⟩

/-- `Archive(control_term_buffer_sparse=b)`. -/
def sparseArgs (b : Bool) : Kwargs PyValue := AList.singleton controlTermBufferSparseKey (.bool b)

theorem lookup_sparseArgs (b : Bool) {key : String} (h : key ≠ controlTermBufferSparseKey) :
    (sparseArgs b).lookup key = none := by
  rw [AList.lookup_eq_none, AList.mem_keys, sparseArgs, AList.keys_singleton,
    List.mem_singleton]
  exact h

/-- Its only value is that of the sparse setting. -/
theorem setting_sparseArgs {b : Bool} {i : ArchiveSetting} {v : PyValue}
    (h : (sparseArgs b).lookup i.key = some v) :
    i = .controlTermBufferSparse ∧ v = .bool b := by
  by_cases hi : i = .controlTermBufferSparse
  · subst hi
    exact ⟨rfl, (Option.some.inj h).symm⟩
  · have hkey : i.key ≠ controlTermBufferSparseKey := by
      revert hi
      cases i <;> decide
    rw [lookup_sparseArgs b hkey] at h
    cases h

theorem documented_sparseArgs (b : Bool) : Documented (sparseArgs b) where
  configFile _ h := by
    rw [lookup_sparseArgs b (by decide)] at h
    cases h
  setting _ _ h := by
    obtain ⟨rfl, rfl⟩ := setting_sparseArgs h
    exact ⟨b, rfl⟩

/-- The constructor connects, with the setting stored as `True`. -/
theorem archive_sparseArgs (b : Bool) :
    archive defaultClient none (sparseArgs b) =
      .ok (Function.update defaultContext .controlTermBufferSparse true) := rfl

/-- The name of a config file. -/
def fileName : List Char := "archive.properties".toList

/-- What the file says. -/
def fileContext : ArchiveContext :=
  Function.update (Function.update (Function.update defaultContext
    .aeronDirectoryName "/mnt/aeron".toUTF8.toList)
    .controlMtuLength (9000 : Int32))
    .controlTermBufferSparse false

/-- An archive client with this file only. -/
def fileClient : ArchiveClient where
  defaults := defaultContext
  configuration file :=
    if file = fileName.flatMap String.utf8EncodeChar then .ok fileContext
    else .error (.foreign .runtimeError)

/-- `Archive(config_file='archive.properties', message_timeout_ns=1000,
recording_events_stream_id=31, control_term_buffer_sparse=True)` -/
def fileArgs : Kwargs PyValue :=
  AList.insert "config_file" (.str (PyStr.ofChars fileName))
    (AList.insert "message_timeout_ns" (.int 1000)
      (AList.insert "recording_events_stream_id" (.int 31) (sparseArgs true)))

theorem baseContext_fileArgs : baseContext fileClient fileArgs = .ok fileContext := by
  have hcast : cast Pybind.castString (PyValue.str (PyStr.ofChars fileName)) =
      .ok (fileName.flatMap String.utf8EncodeChar) :=
    cast_eq_ok.mpr (PyStr.encode_ofChars fileName)
  have hload : fileClient.configuration (fileName.flatMap String.utf8EncodeChar) =
      .ok fileContext := by
    simp only [fileClient, if_true]
  exact bind_eq_ok.mpr ⟨_, hcast, hload⟩

/-- The settings that the keywords are about. -/
theorem lookup_fileArgs (i : ArchiveSetting) :
    fileArgs.lookup i.key = match i with
      | .messageTimeoutNs => some (.int 1000)
      | .recordingEventsStreamId => some (.int 31)
      | .controlTermBufferSparse => some (.bool true)
      | _ => none := by
  cases i <;> rfl

theorem documented_fileArgs : Documented fileArgs where
  configFile _ h := ⟨_, (Option.some.inj h).symm⟩
  setting i v h := by
    rw [lookup_fileArgs] at h
    cases i with
    | messageTimeoutNs => exact ⟨_, (Option.some.inj h).symm⟩
    | recordingEventsStreamId => exact ⟨_, (Option.some.inj h).symm⟩
    | controlTermBufferSparse => exact ⟨_, (Option.some.inj h).symm⟩
    | _ => cases h

/-- Keywords over `AERON_DIR` over the config file. -/
theorem overlay_iff_config_file :
    ∃ context, archive fileClient (some "/tmp".toUTF8.toList) fileArgs = .ok context ∧
      FaithfulOverlay fileClient (some "/tmp".toUTF8.toList) fileArgs context ∧
      context .messageTimeoutNs = (1000 : Int64) ∧
      context .recordingEventsStreamId = (31 : Int32) ∧
      context .controlTermBufferSparse = true ∧
      context .aeronDirectoryName = "/tmp".toUTF8.toList ∧
      context .controlMtuLength = (9000 : Int32) ∧
      context .controlTermBufferLength = (65536 : Int32) := by
  have hsettled := overlay_iff fileClient (some "/tmp".toUTF8.toList) documented_fileArgs
  have hcontext : archive fileClient (some "/tmp".toUTF8.toList) fileArgs = .ok _ :=
    bind_eq_ok.mpr ⟨_, baseContext_fileArgs, rfl⟩
  refine ⟨_, hcontext, (hsettled.2 _ hcontext).mpr ?_, rfl, rfl, rfl, rfl, rfl, rfl⟩
  intro v hv
  exact (Option.some.inj hv).symm

/-- `Archive(control_term_buffer_sparse=False)` connects with sparse term buffers. -/
theorem sparse_false_stored_as_true :
    Documented (sparseArgs false) ∧
      ∃ context, archive defaultClient none (sparseArgs false) = .ok context ∧
        context .controlTermBufferSparse = true ∧
        ¬FaithfulOverlay defaultClient none (sparseArgs false) context := by
  refine ⟨documented_sparseArgs false, _, archive_sparseArgs false, rfl, ?_⟩
  rintro ⟨base, -, hall⟩
  have hmeans : PyValue.bool false = PyValue.bool true := hall .controlTermBufferSparse
  cases hmeans

end Archive

end AeronPy
