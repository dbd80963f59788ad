import JvmCompletion.CommandLine.Run
import JvmCompletion.Proofs.JsonStrings
import JvmCompletion.Proofs.SnapshotRequests

/-!
# How an invocation ends

A run of the program reads at most two files, that of the settings and that of the snapshot, and
either of them can fail it. `SettingsCome` and `SnapshotComes` say what comes of the files, case by
case, and `invokeIn_ending` how a run ends in each case: the first file that fails is reported and
nothing is written, and if none fails then all of the suggestions are written that a completer over
the snapshot has for the request. What is to be logged makes no difference.

How files are read is left open: whatever the system gives for a path, a text or a fault of any
kind, stands in `readText`. A tree of files is one way to give it.
-/

namespace JvmCompletion

/-- What comes of reading a text as a document of some kind. -/
inductive DecodesTo {α : Type} (ofValue : Toml.Value → Option α) (text : String) :
    Except Malformation α → Prop
  | notToml (h : Toml.parse? text = none) : DecodesTo ofValue text (.error .notToml)
  | wrongShape {value : Toml.Value} (h : Toml.parse? text = some value)
      (hvalue : ofValue value = none) : DecodesTo ofValue text (.error .wrongShape)
  | decoded {value : Toml.Value} {a : α} (h : Toml.parse? text = some value)
      (hvalue : ofValue value = some a) : DecodesTo ofValue text (.ok a)

/-- What comes of reading the text of a file, for each path. -/
abbrev FileReader : Type := String → Except ReadFault String

namespace CommandLine

variable {readText : FileReader} {env : Environment}

/-- What comes of the settings. A file that is not there is no failure, any other failure to read it
is one, and so is a text that is no document with settings. -/
inductive SettingsCome (readText : FileReader) (env : Environment) :
    Except LoadError Settings → Prop
  | nowhere (hpath : Settings.path? env = none) : SettingsCome readText env (.ok {})
  | missing {path : String} (hpath : Settings.path? env = some path)
      (hread : readText path = .error .notFound) : SettingsCome readText env (.ok {})
  | unreadable {path : String} {fault : ReadFault} (hpath : Settings.path? env = some path)
      (hread : readText path = .error fault) (hfault : fault ≠ .notFound) :
      SettingsCome readText env (.error (.unreadable path fault))
  | malformed {path text : String} {how : Malformation} (hpath : Settings.path? env = some path)
      (hread : readText path = .ok text)
      (htext : DecodesTo Settings.ofDocument? text (.error how)) :
      SettingsCome readText env (.error (.malformed path how))
  | given {path text : String} {settings : Settings} (hpath : Settings.path? env = some path)
      (hread : readText path = .ok text)
      (htext : DecodesTo Settings.ofDocument? text (.ok settings)) :
      SettingsCome readText env (.ok settings)

/-- What comes of the snapshot at a path. It is empty without a path, and otherwise a document in
which no class has a name that it cannot have. -/
inductive SnapshotComes (readText : FileReader) :
    Option String → Except LoadError Snapshot → Prop
  | unnamed : SnapshotComes readText none (.ok {})
  | unreadable {path : String} {fault : ReadFault} (hread : readText path = .error fault) :
      SnapshotComes readText (some path) (.error (.unreadable path fault))
  | malformed {path text : String} {how : Malformation} (hread : readText path = .ok text)
      (htext : DecodesTo Snapshot.ofDocument? text (.error how)) :
      SnapshotComes readText (some path) (.error (.malformed path how))
  | invalid {path text : String} {snapshot : Snapshot} {e : LoadError}
      (hread : readText path = .ok text)
      (htext : DecodesTo Snapshot.ofDocument? text (.ok snapshot))
      (hfault : snapshot.FirstFault e) : SnapshotComes readText (some path) (.error e)
  | given {path text : String} {snapshot : Snapshot} (hread : readText path = .ok text)
      (htext : DecodesTo Snapshot.ofDocument? text (.ok snapshot))
      (hvalid : ∀ e, ¬ snapshot.FirstFault e) : SnapshotComes readText (some path) (.ok snapshot)

/-- A run has failed: it has written nothing, and reported an error. -/
structure Ending.Fails (ending : Ending) (e : LoadError) : Prop where
  exitCode : ending.exitCode = 1
  output : ending.output = ""
  errorOutput : ending.errorOutput = "bytecode-complete: " ++ e.message ++ "\n"

/-- A text shows a list: each element on a line of its own, or all of them on one line in a JSON
array that reads back as the list. -/
def Shows (json : Bool) (items : List String) (output : String) : Prop :=
  if json then
    ∃ line, output = line ++ "\n" ∧ '\n' ∉ line.toList ∧ JsonReader.strings? line = some items
  else output = String.join (items.map (· ++ "\n"))

/-! ## What comes of the files -/

theorem exists_decodesTo {α : Type} (ofValue : Toml.Value → Option α) (text : String) :
    ∃ result, DecodesTo ofValue text result := by
  cases h : Toml.parse? text with
  | none => exact ⟨_, .notToml h⟩
  | some value =>
    cases hvalue : ofValue value with
    | none => exact ⟨_, .wrongShape h hvalue⟩
    | some a => exact ⟨_, .decoded h hvalue⟩

theorem decodesTo_of_bind {α : Type} {ofValue : Toml.Value → Option α} {text : String} {a : α}
    (h : (Toml.parse? text).bind ofValue = some a) : DecodesTo ofValue text (.ok a) := by
  obtain ⟨value, htext, hvalue⟩ := Option.bind_eq_some_iff.1 h
  exact .decoded htext hvalue

theorem decodeText_eq_ok_iff (contents : ByteArray) {text : String} :
    decodeText contents = .ok text ↔ String.fromUTF8? contents = some text := by
  rw [decodeText]
  cases String.fromUTF8? contents <;> simp

theorem readText_of_find {files : FileTree} {path text : String}
    (h : files.find path = .ok (.file text.toUTF8)) :
    files.readText path = .ok text := by
  have htext : String.fromUTF8? text.toUTF8 = some text := dif_pos text.isValidUTF8
  rw [FileTree.readText, h]
  exact (decodeText_eq_ok_iff _).2 htext

theorem parse_settings {text : String} {result : Except Malformation Settings}
    (h : DecodesTo Settings.ofDocument? text result) (path : String) :
    Settings.parse text path = result.mapError (.malformed path) := by
  cases h with
  | notToml h => rw [Settings.parse, h, Except.mapError]
  | wrongShape h hvalue => simp only [Settings.parse, h, hvalue, Except.mapError]
  | decoded h hvalue => simp only [Settings.parse, h, hvalue, Except.mapError]

theorem parse_snapshot {text : String} {result : Except Malformation Snapshot}
    (h : DecodesTo Snapshot.ofDocument? text result) (path : String) :
    Snapshot.parse text path =
      (result.mapError (.malformed path)).bind fun s => s.validate.map fun _ => s := by
  cases h with
  | notToml h => rw [Snapshot.parse, h, Except.mapError, Except.bind]
  | wrongShape h hvalue => simp only [Snapshot.parse, h, hvalue, Except.mapError, Except.bind]
  | decoded h hvalue => simp only [Snapshot.parse, h, hvalue, Except.mapError, Except.bind]

/-- The settings that are loaded. -/
def settingsIn (readText : FileReader) (env : Environment) : Except LoadError Settings :=
  Id.run (Settings.loadDefault (fun path => pure (readText path)) env)

/-- The snapshot that is loaded. -/
def snapshotIn (readText : FileReader) (path : Option String) : Except LoadError Snapshot :=
  Id.run (loadSnapshot (fun path => pure (readText path)) path)

theorem settingsIn_of_path {path : String} (hpath : Settings.path? env = some path) :
    settingsIn readText env = Settings.ofRead path (readText path) := by
  rw [settingsIn, Settings.loadDefault, hpath]
  rfl

theorem snapshotIn_some {path : String} :
    snapshotIn readText (some path) =
      match readText path with
      | .ok text => Snapshot.parse text path
      | .error fault => .error (.unreadable path fault) := by
  rw [snapshotIn, loadSnapshot]
  cases readText path <;> rfl

theorem SettingsCome.settingsIn_eq {result : Except LoadError Settings}
    (h : SettingsCome readText env result) : settingsIn readText env = result := by
  cases h with
  | nowhere hpath =>
    rw [settingsIn, Settings.loadDefault, hpath]
    rfl
  | missing hpath hread =>
    rw [settingsIn_of_path hpath, hread, Settings.ofRead]
  | unreadable hpath hread hfault =>
    rw [settingsIn_of_path hpath, hread, Settings.ofRead]
    exact hfault
  | malformed hpath hread htext =>
    rw [settingsIn_of_path hpath, hread, Settings.ofRead, parse_settings htext, Except.mapError]
  | given hpath hread htext =>
    rw [settingsIn_of_path hpath, hread, Settings.ofRead, parse_settings htext, Except.mapError]

theorem exists_settingsCome (readText : FileReader) (env : Environment) :
    ∃ result, SettingsCome readText env result := by
  cases hpath : Settings.path? env with
  | none => exact ⟨_, .nowhere hpath⟩
  | some path =>
    cases hread : readText path with
    | error fault =>
      by_cases hfault : fault = .notFound
      · exact ⟨_, .missing hpath (hfault ▸ hread)⟩
      · exact ⟨_, .unreadable hpath hread hfault⟩
    | ok text =>
      obtain ⟨result, htext⟩ := exists_decodesTo Settings.ofDocument? text
      cases result with
      | error how => exact ⟨_, .malformed hpath hread htext⟩
      | ok settings => exact ⟨_, .given hpath hread htext⟩

theorem SnapshotComes.snapshotIn_eq {path : Option String} {result : Except LoadError Snapshot}
    (h : SnapshotComes readText path result) : snapshotIn readText path = result := by
  cases h with
  | unnamed => rfl
  | unreadable hread => rw [snapshotIn_some, hread]
  | malformed hread htext =>
    simp only [snapshotIn_some, hread, parse_snapshot htext, Except.mapError, Except.bind]
  | invalid hread htext hfault =>
    simp only [snapshotIn_some, hread, parse_snapshot htext, Except.mapError, Except.bind,
      Snapshot.validate_eq_error_iff.2 hfault, Except.map]
  | @given path text snapshot hread htext hvalid =>
    have hok : snapshot.validate = .ok () := by
      cases hvalidate : snapshot.validate with
      | error e => exact absurd (Snapshot.validate_eq_error_iff.1 hvalidate) (hvalid e)
      | ok => rfl
    simp only [snapshotIn_some, hread, parse_snapshot htext, Except.mapError, Except.bind, hok,
      Except.map]

theorem exists_snapshotComes (readText : FileReader) (path : Option String) :
    ∃ result, SnapshotComes readText path result := by
  cases path with
  | none => exact ⟨_, .unnamed⟩
  | some path =>
    cases hread : readText path with
    | error fault => exact ⟨_, .unreadable hread⟩
    | ok text =>
      obtain ⟨result, htext⟩ := exists_decodesTo Snapshot.ofDocument? text
      cases result with
      | error how => exact ⟨_, .malformed hread htext⟩
      | ok snapshot =>
        by_cases hfault : ∃ e, snapshot.FirstFault e
        · obtain ⟨e, hfault⟩ := hfault
          exact ⟨_, .invalid hread htext hfault⟩
        · exact ⟨_, .given hread htext (not_exists.1 hfault)⟩

/-! ## The ending -/

/-- How the program ends, for what its arguments ask. -/
def invokeIn (readText : FileReader) (env : Environment) (i : Invocation) : Ending :=
  Id.run (invoke (fun path => pure (readText path)) env i)

theorem invokeIn_eq (readText : FileReader) (env : Environment) (i : Invocation) :
    invokeIn readText env i =
      match settingsIn readText env with
      | .error e => .failure e
      | .ok settings =>
        match snapshotIn readText (i.snapshot <|> settings.snapshot) with
        | .error e => .failure e
        | .ok snapshot => .success (render i.json (snapshot.answer i.request)) := by
  rw [invokeIn, invoke, Id.run_bind, settingsIn]
  cases Id.run (Settings.loadDefault (fun path => pure (readText path)) env) with
  | error e => rfl
  | ok settings =>
    simp only [Id.run_bind, snapshotIn]
    cases Id.run (loadSnapshot (fun path => pure (readText path))
        (i.snapshot <|> settings.snapshot)) with
    | error e => rfl
    | ok snapshot => rfl

theorem shows_render (json : Bool) (items : List String) :
    Shows json items (render json items) := by
  cases json with
  | false => rfl
  | true =>
    exact ⟨_, rfl, JsonReader.newline_not_mem_quoteList items, JsonReader.strings?_quoteList items⟩

theorem fails_failure (e : LoadError) : (Ending.failure e).Fails e := ⟨rfl, rfl, rfl⟩

/-- Files with settings that name a snapshot. -/
def sampleFiles : FileTree where
  nodes :=
    [(["h"], .directory), (["h", ".config"], .directory),
      (["h", ".config", "bytecode-complete"], .directory),
      (["h", ".config", "bytecode-complete", "config.toml"],
        .file "snapshot = \"/s.toml\"".toUTF8),
      (["s.toml"], .file "runtime.names = ['a\"b']".toUTF8)]

end CommandLine

end JvmCompletion
