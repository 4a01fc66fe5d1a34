import TypedModule.Command.Run

/-!
# Options in front of a command line

An option with its value attached is one word. When such words stand in front of a command line,
what they say holds unless the command line says otherwise, and nothing else about it changes: it is
refused for the same reason or read as the same arguments.
-/

namespace TypedModule.Command

variable {key : Key} {cs : List Char}

/-- The options that bear on the settings, each with its text. -/
structure Route where
  config : Option String := none
  header : Option String := none
  headerFile : Option String := none
  errorName : Option String := none
  trace : Bool := false

/-- The arguments, and those of the route where they have none of their own. -/
def Arguments.orElse (a : Arguments) (r : Route) : Arguments :=
  { a with
    config := a.config.or (r.config.map .ofString)
    header := a.header.or (r.header.map .ofString)
    headerFile := a.headerFile.or (r.headerFile.map .ofString)
    errorName := a.errorName.or (r.errorName.map .ofString)
    trace := a.trace || r.trace }

/-- The word of a long option with its text. -/
def Key.attached (key : Key) (text : String) : String := key.long ++ "=" ++ text

theorem equals_notMem_long (key : Key) : '=' ∉ key.long.toList := by
  cases key <;> decide

theorem ofLong?_long (key : Key) : Key.ofLong? key.long.toList = some key := by
  cases key <;> decide

theorem exists_toList_long (key : Key) : ∃ rest, key.long.toList = '-' :: '-' :: rest := by
  cases key <;> exact ⟨_, rfl⟩

theorem ofLong?_of_equals (h : '=' ∈ cs) : Key.ofLong? cs = none := by
  apply List.find?_eq_none.2
  intro key _ hkey
  have heq : key.long.toList = cs := beq_iff_eq.1 hkey
  exact equals_notMem_long key (heq ▸ h)

theorem splitValue_append (h : '=' ∉ cs) (value : List Char) :
    splitValue (cs ++ '=' :: value) = (cs, some (String.ofList value)) := by
  have hcs : ∀ c ∈ cs, (c != '=') = true := by
    intro c hc
    apply bne_iff_ne.2
    rintro rfl
    exact h hc
  rw [splitValue, List.dropWhile_append_of_pos hcs, List.takeWhile_append_of_pos hcs]
  simp

theorem classWord_attached (key : Key) (text : String) :
    classWord (key.attached text) = .ok (.option (.long key (some text))) := by
  obtain ⟨rest, hrest⟩ := exists_toList_long key
  have hword : (key.attached text).toList = key.long.toList ++ '=' :: text.toList := by
    simp [Key.attached]
  have hnone : Key.ofLong? (key.attached text).toList = none := by
    rw [hword]
    exact ofLong?_of_equals (by simp)
  have hsplit := splitValue_append (equals_notMem_long key) text.toList
  rw [← hword, String.ofList_toList] at hsplit
  have hlong : classLong (key.attached text) = .ok (.option (.long key (some text))) := by
    rw [classLong, hsplit]
    simp only [hnone, ofLong?_long]
  rw [classWord, hword, hrest]
  exact hlong

theorem classWord_long (key : Key) : classWord key.long = .ok (.option (.long key none)) := by
  obtain ⟨rest, hrest⟩ := exists_toList_long key
  have hlong : classLong key.long = .ok (.option (.long key none)) := by
    simp only [classLong, ofLong?_long]
  rw [classWord, hrest]
  exact hlong

theorem classWords_attached (key : Key) (text : String) (words : List String) :
    classWords (key.attached text :: words) =
      (classWords words).map (.option (.long key (some text)) :: ·) := by
  have hword : key.attached text ≠ "--" := by
    intro h
    have hmem : '=' ∈ (key.attached text).toList := by simp [Key.attached]
    rw [h] at hmem
    revert hmem
    decide
  rw [classWords, if_neg hword, classWord_attached]

theorem classWords_long (key : Key) (words : List String) :
    classWords (key.long :: words) =
      (classWords words).map (.option (.long key none) :: ·) := by
  have hword : key.long ≠ "--" := by
    cases key <;> decide
  rw [classWords, if_neg hword, classWord_long]

def Draft.orElse (d : Draft) (r : Route) : Draft := { d with arguments := d.arguments.orElse r }

theorem setFlag_orElse (d : Draft) (r : Route) (key : Key) :
    (d.orElse r).setFlag key = (d.setFlag key).orElse r := by
  cases key <;> rfl

theorem setValue_orElse (d : Draft) (r : Route) (key : Key) (value : Value) :
    (d.orElse r).setValue key value = (d.setValue key value).orElse r := by
  cases key <;> rfl

theorem setFlags_orElse (d : Draft) (r : Route) (keys : List Key) :
    (d.orElse r).setFlags keys = (d.setFlags keys).map (Draft.orElse · r) := by
  induction keys generalizing d with
  | nil => rfl
  | cons key keys ih =>
    cases key with
    | help => rfl
    | _ =>
      rw [Draft.setFlags, Draft.setFlags, setFlag_orElse]
      · exact ih _
      all_goals exact nofun

/-- Taking the words goes the same way whatever was set before them, for no arm looks at the values
that are set. -/
theorem take_orElse (r : Route) (fresh : Bool) (ws : List Word) (d : Draft) :
    take fresh ws (d.orElse r) = (take fresh ws d).map (Draft.orElse · r) := by
  fun_induction take fresh ws d with
  | case1 => rfl
  | case2 fresh word rest d hfound ih =>
    rw [take]
    exact (if_pos hfound).trans ih
  | case3 fresh word rest d hfound ih =>
    rw [take]
    exact (if_neg hfound).trans ih
  | case4 fresh rest d hvanishes ih =>
    rw [take]
    exact (if_pos hvanishes).trans ih
  | case5 fresh rest d hstays ih =>
    rw [take]
    exact (if_neg hstays).trans ih
  | case6 fresh word rest d ih =>
    rw [take]
    exact ih
  | case7 fresh mention rest d fault hparts =>
    rw [take, hparts]
    rfl
  | case8 fresh mention d flags key word rest stop hflags hparts =>
    simp only [take, hparts, setFlags_orElse, hflags]
    rfl
  | case9 fresh mention d flags key word rest next hflags hparts ih =>
    simp only [take, hparts, setFlags_orElse, hflags, Except.map, setValue_orElse]
    exact ih
  | case10 fresh mention rest d flags key hrest hparts =>
    cases rest with
    | nil =>
      simp only [take, hparts]
      rfl
    | cons word rest =>
      cases word with
      | plain word => exact (hrest word rest rfl).elim
      | _ =>
        simp only [take, hparts]
        rfl
  | case11 fresh mention d flags rest stop hflags hparts =>
    simp only [take, hparts, setFlags_orElse, hflags]
    rfl
  | case12 fresh mention d flags rest next hflags hparts ih =>
    simp only [take, hparts, setFlags_orElse, hflags, Except.map]
    exact ih
  | case13 fresh mention d flags key word rest stop hflags hparts =>
    simp only [take, hparts, setFlags_orElse, hflags]
    rfl
  | case14 fresh mention d flags key word rest next hflags hparts ih =>
    simp only [take, hparts, setFlags_orElse, hflags, Except.map, setValue_orElse]
    exact ih

/-- Reads a command line with something set before. -/
def parseFrom (d : Draft) (words : List String) : Except Stop Arguments :=
  match classWords words with
  | .error e => .error (.misuse e)
  | .ok ws =>
    match take false ws d with
    | .error e => .error e
    | .ok d =>
      if !d.found then .error (.misuse .missingSource)
      else if !d.extras.isEmpty then .error (.misuse (.unrecognized d.extras))
      else .ok d.arguments

theorem parse_eq (words : List String) : parse words = parseFrom {} words := rfl

theorem parseFrom_attached (hkey : key.wantsValue = true) (text : String) (d : Draft)
    (words : List String) :
    parseFrom d (key.attached text :: words) =
      parseFrom (d.setValue key (.ofString text)) words := by
  have hparts : (Mention.long key (some text)).parts = .ok ([], .value key text) := if_pos hkey
  rw [parseFrom, parseFrom, classWords_attached]
  cases classWords words with
  | error e => rfl
  | ok ws =>
    simp only [Except.map, take, hparts]
    rfl

theorem parseFrom_trace (d : Draft) (words : List String) :
    parseFrom d (Key.trace.long :: words) = parseFrom (d.setFlag .trace) words := by
  rw [parseFrom, parseFrom, classWords_long]
  cases classWords words with
  | error e => rfl
  | ok ws => rfl

theorem parseFrom_orElse (d : Draft) (r : Route) (words : List String) :
    parseFrom (d.orElse r) words = (parseFrom d words).map (Arguments.orElse · r) := by
  rw [parseFrom, parseFrom]
  cases classWords words with
  | error e => rfl
  | ok ws =>
    dsimp only
    rw [take_orElse]
    cases take false ws d with
    | error e => rfl
    | ok d =>
      cases hfound : d.found with
      | false => simp [Except.map, Draft.orElse, hfound]
      | true =>
        cases hextras : d.extras with
        | nil => simp [Except.map, Draft.orElse, hfound, hextras]
        | cons word rest => simp [Except.map, Draft.orElse, hfound, hextras]

/-- The option with its text, if there is one. -/
def Key.words (key : Key) (text : Option String) : List String :=
  (text.map key.attached).toList

def Route.words (r : Route) : List String :=
  Key.config.words r.config ++ Key.header.words r.header ++
    Key.headerFile.words r.headerFile ++ Key.errorName.words r.errorName ++
      if r.trace then [Key.trace.long] else []

def Draft.setText (d : Draft) (key : Key) : Option String → Draft
  | none => d
  | some text => d.setValue key (.ofString text)

theorem parseFrom_words (hkey : key.wantsValue = true) (text : Option String) (d : Draft)
    (words : List String) :
    parseFrom d (key.words text ++ words) = parseFrom (d.setText key text) words := by
  cases text with
  | none => rfl
  | some text => exact parseFrom_attached hkey text d words

/-- What the words of a route say holds unless the command line behind them says otherwise. -/
theorem parse_words_append (r : Route) (words : List String) :
    parse (r.words ++ words) = (parse words).map (Arguments.orElse · r) := by
  rw [parse_eq, parse_eq, ← parseFrom_orElse]
  rw [Route.words, List.append_assoc, List.append_assoc, List.append_assoc, List.append_assoc,
    parseFrom_words rfl, parseFrom_words rfl, parseFrom_words rfl, parseFrom_words rfl]
  obtain ⟨config, header, headerFile, errorName, trace⟩ := r
  cases trace with
  | false => cases config <;> cases header <;> cases headerFile <;> cases errorName <;> rfl
  | true =>
    rw [if_pos rfl, List.singleton_append, parseFrom_trace]
    cases config <;> cases header <;> cases headerFile <;> cases errorName <;> rfl

theorem run_words_append (d : Disk) (r : Route) {words : List String} {a : Arguments}
    (hwords : parse words = .ok a) : d.run (r.words ++ words) = d.runArguments (a.orElse r) := by
  rw [Disk.run, parse_words_append, hwords]
  rfl

end TypedModule.Command
