import ArchiveVfs.CommandLine.Parser
import ArchiveVfs.Proofs.Outcome
import ArchiveVfs.Proofs.Text.Cut

/-!
# Requests and the arguments that make them

A request that has been read is in good order (`Request.Sound`): its settings and its root are no
empty paths, and the names of its assigns are long enough and have no equals sign. Each request in
good order has a `Request.spelling` that is read as this request (`ofArguments_spelling`), so
the requests in good order are those that arguments can make (`exists_ofArguments_iff`).
-/

namespace ArchiveVfs.CommandLine

open Text

/-- A name that can be given to an assign. -/
structure IsAssignName (name : String) : Prop where
  size : 2 ≤ name.utf8ByteSize
  equals : '=' ∉ name.toList

/-! ## What is read is in good order -/

/-- What the options of a level say is in good order. -/
structure Given.Sound (given : Given) : Prop where
  settingsFile : given.settingsFile ≠ some ""
  root : given.root ≠ some ""
  assigns : ∀ assign ∈ given.assigns, IsAssignName assign.1

/-- A request is in good order. -/
structure Request.Sound (request : Request) : Prop where
  settingsFile : request.settingsFile ≠ some ""
  root : request.root ≠ some ""
  assigns : ∀ assign ∈ request.assigns, IsAssignName assign.1

theorem readPath_eq_ok {parameter : Parameter} {value path : String} :
    readPath parameter value = .ok path ↔ value ≠ "" ∧ value = path := by
  by_cases hempty : value = ""
  · simp [readPath, complain, hempty]
  · have hsome : value.isEmpty = false := by simpa using hempty
    simp [readPath, hsome, hempty]

/-- An assign is read from its name and its location, with an equals sign between them. -/
theorem readAssign_eq_ok {value : String} {assign : String × String} :
    readAssign value = .ok assign ↔
      IsAssignName assign.1 ∧ value = assign.1 ++ "=" ++ assign.2 := by
  constructor
  · intro h
    rw [readAssign] at h
    split at h
    · cases h
    next name location hcut =>
      obtain ⟨hvalue, hname⟩ := cutFirst_eq_some hcut
      dsimp only at h
      split at h
      · cases h
      next hsize =>
        obtain rfl := Except.ok.inj h
        refine ⟨⟨Nat.le_of_not_lt hsize, ?_⟩, ?_⟩
        · rwa [String.toList_ofList]
        · apply String.toList_injective
          simpa using hvalue
  · rintro ⟨⟨hsize, hname⟩, rfl⟩
    have hcut : cutFirst '=' (assign.1.toList ++ '=' :: assign.2.toList)
        = some (assign.1.toList, assign.2.toList) := cutFirst_append hname
    have htext : (assign.1 ++ "=" ++ assign.2).toList
        = assign.1.toList ++ '=' :: assign.2.toList := by simp
    rw [readAssign, htext, hcut]
    simp only [String.ofList_toList, if_neg (Nat.not_lt.2 hsize)]

namespace Given.Sound

variable {given next : Given}

theorem accept {parameter : Parameter} {value : String} (hsound : given.Sound)
    (h : given.accept parameter value = .ok next) : next.Sound := by
  cases parameter with
  | verbosity =>
    obtain ⟨_, _, h⟩ := Outcome.bind_eq_ok.1 h
    obtain ⟨_, _, h⟩ := Outcome.bind_eq_ok.1 h
    obtain rfl := Except.ok.inj h
    exact ⟨hsound.settingsFile, hsound.root, hsound.assigns⟩
  | settingsFile =>
    obtain ⟨_, _, h⟩ := Outcome.bind_eq_ok.1 h
    obtain ⟨path, hpath, h⟩ := Outcome.bind_eq_ok.1 h
    obtain rfl := Except.ok.inj h
    obtain ⟨hsome, rfl⟩ := readPath_eq_ok.1 hpath
    exact ⟨fun heq => hsome (Option.some.inj heq), hsound.root, hsound.assigns⟩
  | root =>
    obtain ⟨_, _, h⟩ := Outcome.bind_eq_ok.1 h
    obtain ⟨path, hpath, h⟩ := Outcome.bind_eq_ok.1 h
    obtain rfl := Except.ok.inj h
    obtain ⟨hsome, rfl⟩ := readPath_eq_ok.1 hpath
    exact ⟨hsound.settingsFile, fun heq => hsome (Option.some.inj heq), hsound.assigns⟩
  | assign =>
    obtain ⟨assign, hassign, h⟩ := Outcome.bind_eq_ok.1 h
    obtain rfl := Except.ok.inj h
    refine ⟨hsound.settingsFile, hsound.root, fun other hin => ?_⟩
    rcases List.mem_append.1 hin with hin | hin
    · exact hsound.assigns other hin
    · obtain rfl := List.mem_singleton.1 hin
      exact (readAssign_eq_ok.1 hassign).1
  | mount =>
    obtain rfl := Except.ok.inj h
    exact ⟨hsound.settingsFile, hsound.root, hsound.assigns⟩
  | platform | pattern =>
    obtain ⟨_, _, h⟩ := Outcome.bind_eq_ok.1 h
    obtain rfl := Except.ok.inj h
    exact ⟨hsound.settingsFile, hsound.root, hsound.assigns⟩

theorem turnOn {switch : Switch} (hsound : given.Sound) (h : given.turnOn switch = .ok next) :
    next.Sound := by
  cases switch with
  | help => cases h
  | version => cases h
  | standardArchives | diskOnly | whole =>
    obtain ⟨_, _, h⟩ := Outcome.bind_eq_ok.1 h
    obtain rfl := Except.ok.inj h
    exact ⟨hsound.settingsFile, hsound.root, hsound.assigns⟩

end Given.Sound

namespace Reading

variable {reading next : Reading} {level : Level}

/-! No step of a reading gives up the good order. -/

theorem sound_settle (hsound : reading.given.Sound) (h : reading.settle = .ok next) :
    next.given.Sound := by
  rw [settle] at h
  split at h
  · obtain rfl := Except.ok.inj h
    exact hsound
  · cases h
  · obtain ⟨given, haccept, rfl⟩ := Outcome.map_eq_ok.1 h
    exact hsound.accept haccept

theorem sound_takeParameter {parameter : Parameter} {attached : Option String}
    (hsound : reading.given.Sound) (h : reading.takeParameter parameter attached = .ok next) :
    next.given.Sound := by
  obtain ⟨settled, hsettle, h⟩ := Outcome.bind_eq_ok.1 h
  cases attached with
  | none =>
    obtain rfl := Except.ok.inj h
    show settled.given.Sound
    exact sound_settle hsound hsettle
  | some value =>
    obtain ⟨given, haccept, h⟩ := Outcome.bind_eq_ok.1 h
    obtain rfl := Except.ok.inj h
    exact (sound_settle hsound hsettle).accept haccept

theorem sound_takeSwitch {switch : Switch} (hsound : reading.given.Sound)
    (h : reading.takeSwitch switch = .ok next) : next.given.Sound := by
  obtain ⟨settled, hsettle, h⟩ := Outcome.bind_eq_ok.1 h
  obtain ⟨given, hturn, h⟩ := Outcome.bind_eq_ok.1 h
  obtain rfl := Except.ok.inj h
  exact (sound_settle hsound hsettle).turnOn hturn

theorem sound_takeName {text : List Char} (hsound : reading.given.Sound)
    (h : reading.takeName level text = .ok next) : next.given.Sound := by
  rw [takeName] at h
  split at h
  split at h
  · cases h
  · exact sound_takeParameter hsound h
  · exact sound_takeSwitch hsound h
  · cases h

theorem sound_takeLetters {letters : List Char} (hsound : reading.given.Sound)
    (h : takeLetters level letters reading = .ok next) : next.given.Sound := by
  induction letters generalizing reading with
  | nil =>
    obtain rfl := Except.ok.inj h
    exact hsound
  | cons letter rest ih =>
    rw [takeLetters] at h
    split at h
    · cases h
    · exact sound_takeParameter hsound h
    · obtain ⟨switched, hswitch, h⟩ := Outcome.bind_eq_ok.1 h
      exact ih (sound_takeSwitch hsound hswitch) h

theorem sound_takeOperand {argument : String} (hsound : reading.given.Sound)
    (h : reading.takeOperand level argument = .ok next) : next.given.Sound := by
  rw [takeOperand] at h
  split at h
  · obtain ⟨settled, hsettle, rfl⟩ := Outcome.map_eq_ok.1 h
    show settled.given.Sound
    exact sound_settle hsound hsettle
  · cases h

theorem sound_takeWord {argument : String} (hsound : reading.given.Sound)
    (h : reading.takeWord level argument = .ok next) : next.given.Sound := by
  rw [takeWord] at h
  split at h
  · obtain rfl := Except.ok.inj h
    exact hsound
  · exact sound_takeOperand hsound h

theorem sound_take {argument : String} (hsound : reading.given.Sound)
    (h : reading.take level argument = .ok next) : next.given.Sound := by
  rw [take] at h
  split at h
  · exact sound_takeOperand hsound h
  split at h
  · exact sound_takeWord hsound h
  · obtain rfl := Except.ok.inj h
    exact hsound
  · exact sound_takeName hsound h
  · exact sound_takeLetters hsound h
  · exact sound_takeWord hsound h

/-- Without a root of its own, a level that has been ended has not met an empty one in the
environment. -/
theorem of_finish {rootVariable : Option String} (hsound : reading.given.Sound)
    (h : reading.finish rootVariable = .ok next) :
    next.given.Sound ∧ (next.given.root = none → rootVariable ≠ some "") := by
  obtain ⟨settled, hsettle, h⟩ := Outcome.bind_eq_ok.1 h
  split at h
  · cases h
  next hroot =>
    obtain rfl := Except.ok.inj h
    refine ⟨sound_settle hsound hsettle, fun hnone hempty => hroot ?_⟩
    rw [hnone, hempty]
    rfl

end Reading

theorem sound_readInner {verb : Verb} {reading next : Reading} {arguments : List String}
    (hsound : reading.given.Sound) (h : readInner verb reading arguments = .ok next) :
    next.given.Sound := by
  induction arguments generalizing reading with
  | nil =>
    obtain rfl := Except.ok.inj h
    exact hsound
  | cons argument rest ih =>
    obtain ⟨taken, htake, h⟩ := Outcome.bind_eq_ok.1 h
    exact ih (Reading.sound_take hsound htake) h

theorem Given.sound_empty : ({} : Given).Sound :=
  ⟨nofun, nofun, nofun⟩

/-- Two levels in good order make a request in good order. -/
theorem Request.sound_ofLevels {outer inner : Given} {rootVariable : Option String}
    {command : Command} (houter : outer.Sound) (hinner : inner.Sound)
    (hvariable : inner.root = none → rootVariable ≠ some "") :
    (Request.ofLevels outer inner rootVariable command).Sound := by
  refine ⟨?_, ?_, ?_⟩
  · show (inner.settingsFile <|> outer.settingsFile) ≠ some ""
    cases hfile : inner.settingsFile with
    | none => exact houter.settingsFile
    | some path =>
      show some path ≠ some ""
      rw [← hfile]
      exact hinner.settingsFile
  · show (inner.root <|> outer.root <|> rootVariable) ≠ some ""
    cases hroot : inner.root with
    | some path =>
      show some path ≠ some ""
      rw [← hroot]
      exact hinner.root
    | none =>
      cases hother : outer.root with
      | none => exact hvariable hroot
      | some path =>
        show some path ≠ some ""
        rw [← hother]
        exact houter.root
  · show ∀ assign ∈ innerOr inner.assigns outer.assigns, IsAssignName assign.1
    rw [innerOr]
    split
    · exact houter.assigns
    · exact hinner.assigns

theorem readNoVerb_ne_ok (outer : Reading) (rootVariable : Option String) (request : Request) :
    readNoVerb outer rootVariable ≠ .ok request := by
  intro h
  obtain ⟨_, _, h⟩ := Outcome.bind_eq_ok.1 h
  split at h <;> cases h

theorem readHelp_ne_ok (arguments : List String) (request : Request) :
    readHelp arguments ≠ .ok request := by
  intro h
  match arguments with
  | [] => cases h
  | [word] =>
    rw [readHelp] at h
    split at h <;> cases h
  | first :: second :: rest => cases h

theorem sound_readVerb {outer : Reading} {verb : Verb} {rootVariable : Option String}
    {arguments : List String} {request : Request} (hsound : outer.given.Sound)
    (h : readVerb outer verb rootVariable arguments = .ok request) : request.Sound := by
  obtain ⟨taken, htaken, h⟩ := Outcome.bind_eq_ok.1 h
  obtain ⟨inner, hinner, h⟩ := Outcome.bind_eq_ok.1 h
  obtain ⟨hinnerSound, hvariable⟩ :=
    Reading.of_finish (sound_readInner Given.sound_empty htaken) hinner
  split at h
  · cases h
  · obtain ⟨finished, houter, h⟩ := Outcome.bind_eq_ok.1 h
    obtain rfl := Except.ok.inj h
    exact Request.sound_ofLevels (Reading.of_finish hsound houter).1 hinnerSound hvariable

theorem sound_readOuter {rootVariable : Option String} {outer : Reading}
    {arguments : List String} {request : Request} (hsound : outer.given.Sound)
    (h : readOuter rootVariable outer arguments = .ok request) : request.Sound := by
  induction arguments generalizing outer with
  | nil => exact absurd h (readNoVerb_ne_ok outer rootVariable request)
  | cons argument rest ih =>
    rw [readOuter] at h
    split at h
    · exact absurd h (readHelp_ne_ok rest request)
    split at h
    · exact sound_readVerb hsound h
    · obtain ⟨taken, htake, h⟩ := Outcome.bind_eq_ok.1 h
      exact ih (Reading.sound_take hsound htake) h

/-- A request that has been read is in good order, whatever the environment names for a root. -/
theorem Request.sound_ofArguments {arguments : List String} {rootVariable : Option String}
    {request : Request} (h : Request.ofArguments arguments rootVariable = .ok request) :
    request.Sound :=
  sound_readOuter Given.sound_empty h

/-! ## Options in full -/

/-- An option as it is given: a parameter with its value, or a switch. -/
inductive Choice where
  | parameter (parameter : Parameter) (value : String)
  | switch (switch : Switch)

namespace Choice

/-- The option without its value. -/
def flag : Choice → Flag
  | parameter p _ => .parameter p
  | switch s => .switch s

/-- A choice in full: the name behind two dashes, the value behind an equals sign. -/
def spelling : Choice → String
  | parameter p value => "--" ++ p.name ++ "=" ++ value
  | switch s => s.shown

/-- What stands behind the name. -/
def attached : Choice → List Char
  | parameter _ value => '=' :: value.toList
  | switch _ => []

/-- What is given with a choice in addition. -/
def addTo (given : Given) : Choice → Except Stop Given
  | parameter p value => given.accept p value
  | switch s => given.turnOn s

end Choice

/-- The choices that ask for all that a request is to be run with. -/
def Request.choices (request : Request) : List Choice :=
  .parameter .verbosity request.verbosity.label ::
    (request.settingsFile.toList.map (.parameter .settingsFile ·)
      ++ (request.root.toList.map (.parameter .root ·)
      ++ (request.platform.toList.map (.parameter .platform ·)
      ++ (request.assigns.map (fun assign => .parameter .assign (assign.1 ++ "=" ++ assign.2))
      ++ (request.mounts.map (.parameter .mount ·)
      ++ ((if request.standardArchives then [.switch .standardArchives] else [])
      ++ if request.diskOnly then [.switch .diskOnly] else []))))))

namespace Command

/-- The verb of a command. -/
def verb : Command → Verb
  | probe _ => .probe
  | list .. => .list
  | print _ => .print
  | copy .. => .copy
  | checksum _ => .checksum
  | createDirectory _ => .createDirectory
  | assigns => .assigns

/-- The choices behind the verb. -/
def choices : Command → List Choice
  | list _ pattern whole =>
    .parameter .pattern pattern :: if whole then [.switch .whole] else []
  | _ => []

/-- What the command is done to. -/
def operands : Command → List String
  | probe path | list path .. | print path | checksum path | createDirectory path => [path]
  | copy source target => [source, target]
  | assigns => []

end Command

/-- Arguments that make a request: all options in full, those of the verb behind it, and the
operands behind two dashes. -/
def Request.spelling (request : Request) : List String :=
  request.choices.map Choice.spelling ++ request.command.verb.label ::
    (request.command.choices.map Choice.spelling ++ "--" :: request.command.operands)

theorem Verb.ofLabel?_label (verb : Verb) : Verb.ofLabel? verb.label = some verb := by
  cases verb <;> rfl

theorem Verbosity.ofLabel?_label (verbosity : Verbosity) :
    Verbosity.ofLabel? verbosity.label = some verbosity := by
  cases verbosity <;> rfl

theorem Choice.toList_spelling (choice : Choice) :
    choice.spelling.toList = '-' :: '-' :: (choice.flag.name.toList ++ choice.attached) := by
  cases choice with
  | parameter parameter value => simp [spelling, flag, attached, Flag.name]
  | switch switch => simp [spelling, flag, attached, Flag.name, Switch.shown]

/-- No verb and no word for help begins with a dash. -/
theorem Choice.spelling_ne (choice : Choice) :
    Verb.ofLabel? choice.spelling = none ∧ choice.spelling ≠ Reading.helpWord := by
  have hdash : choice.spelling.toList.head? = some '-' := by rw [toList_spelling]; rfl
  refine ⟨?_, ?_⟩
  · refine List.find?_eq_none.2 fun verb _ heq => ?_
    rw [← of_decide_eq_true heq] at hdash
    cases verb <;> cases hdash
  · intro heq
    rw [heq] at hdash
    cases hdash

namespace Flag

theorem equals_not_mem_name (flag : Flag) : '=' ∉ flag.name.toList := by
  rcases flag with parameter | switch
  · cases parameter <;> decide
  · cases switch <;> decide

theorem name_ne_empty (flag : Flag) : flag.name.toList ≠ [] := by
  rcases flag with parameter | switch
  · cases parameter <;> decide
  · cases switch <;> decide

end Flag

namespace Reading

variable {reading : Reading} {level : Level} {given : Given}

/-- Options are read, and none waits for its value. -/
structure Ready (reading : Reading) : Prop where
  pending : reading.pending = none
  options : reading.operandsOnly = false

theorem Ready.settle (h : reading.Ready) : reading.settle = .ok reading := by
  rw [Reading.settle, h.pending]

theorem take_dashes {argument : String} {c : Char} {text : List Char}
    (hready : reading.Ready) (h : argument.toList = '-' :: '-' :: c :: text) :
    reading.take level argument = reading.takeName level (c :: text) := by
  rw [take, hready.options, if_neg Bool.false_ne_true, h]
  rfl

theorem takeName_parameter {parameter : Parameter} {value : String} (hready : reading.Ready)
    (hflag : Flag.ofName? level parameter.name = some (.parameter parameter))
    (h : reading.given.accept parameter value = .ok given) :
    reading.takeName level (parameter.name.toList ++ '=' :: value.toList)
      = .ok { reading with given } := by
  have hcut : cutFirst '=' (parameter.name.toList ++ '=' :: value.toList)
      = some (parameter.name.toList, value.toList) :=
    cutFirst_append (Flag.parameter parameter).equals_not_mem_name
  simp only [takeName, hcut, String.ofList_toList, hflag, takeParameter, hready.settle,
    Outcome.ok_bind, h]
  rfl

theorem takeName_switch {switch : Switch} (hready : reading.Ready)
    (hflag : Flag.ofName? level switch.name = some (.switch switch))
    (h : reading.given.turnOn switch = .ok given) :
    reading.takeName level switch.name.toList = .ok { reading with given } := by
  have hcut := cutFirst_eq_none.2 (Flag.switch switch).equals_not_mem_name
  rw [Flag.name] at hcut
  simp only [takeName, hcut, String.ofList_toList, hflag, takeSwitch, hready.settle,
    Outcome.ok_bind, h]
  rfl

theorem finish_none (h : reading.pending = none) : reading.finish none = .ok reading := by
  simp [finish, settle, h]

/-- A choice in full is taken at once. -/
theorem take_spelling {choice : Choice} (hready : reading.Ready)
    (hflag : Flag.ofName? level choice.flag.name = some choice.flag)
    (h : choice.addTo reading.given = .ok given) :
    reading.take level choice.spelling = .ok { reading with given } := by
  have hname : reading.take level choice.spelling
      = reading.takeName level (choice.flag.name.toList ++ choice.attached) := by
    have htext := choice.toList_spelling
    obtain ⟨c, rest, hname⟩ := List.exists_cons_of_ne_nil choice.flag.name_ne_empty
    rw [hname, List.cons_append] at htext
    rw [take_dashes hready htext, hname, List.cons_append]
  rw [hname]
  cases choice with
  | parameter parameter value => exact takeName_parameter hready hflag h
  | switch switch =>
    rw [Choice.attached, List.append_nil]
    exact takeName_switch hready hflag h

/-- What all choices give in addition, one after the other. -/
def addAll (given : Given) (choices : List Choice) : Except Stop Given :=
  choices.foldlM Choice.addTo given

/-- The choices may all stand at the level. -/
def Allowed (level : Level) (choices : List Choice) : Prop :=
  ∀ choice ∈ choices, Flag.ofName? level choice.flag.name = some choice.flag

theorem readInner_choices {verb : Verb} {choices : List Choice} {rest : List String}
    (hready : reading.Ready) (hallowed : Allowed (some verb) choices)
    (h : addAll reading.given choices = .ok given) :
    readInner verb reading (choices.map Choice.spelling ++ rest)
      = readInner verb { reading with given } rest := by
  induction choices generalizing reading with
  | nil =>
    obtain rfl := Except.ok.inj h
    rfl
  | cons choice choices ih =>
    obtain ⟨next, hnext, h⟩ := Outcome.bind_eq_ok.1 h
    obtain ⟨hflag, hrest⟩ := List.forall_mem_cons.1 hallowed
    have htake := take_spelling hready hflag hnext
    have hagain := @ih { reading with given := next } ⟨hready.pending, hready.options⟩ hrest h
    rw [List.map_cons, List.cons_append, readInner, List.foldlM_cons, htake, Outcome.ok_bind]
    exact hagain

theorem readOuter_choices {rootVariable : Option String} {choices : List Choice}
    {rest : List String} (hready : reading.Ready) (hallowed : Allowed none choices)
    (h : addAll reading.given choices = .ok given) :
    readOuter rootVariable reading (choices.map Choice.spelling ++ rest)
      = readOuter rootVariable { reading with given } rest := by
  induction choices generalizing reading with
  | nil =>
    obtain rfl := Except.ok.inj h
    rfl
  | cons choice choices ih =>
    obtain ⟨next, hnext, h⟩ := Outcome.bind_eq_ok.1 h
    obtain ⟨hflag, hrest⟩ := List.forall_mem_cons.1 hallowed
    have htake := take_spelling hready hflag hnext
    -- neither a verb nor the word for help, so the reading stays at the outer level
    obtain ⟨hverb, hhelp⟩ := choice.spelling_ne
    have hagain := @ih { reading with given := next } ⟨hready.pending, hready.options⟩ hrest h
    rw [List.map_cons, List.cons_append, readOuter]
    simp only [hhelp, hverb, decide_false, Bool.and_false, Bool.false_eq_true, if_false, ite_self]
    rw [htake]
    exact hagain

/-- Behind two dashes all operands are taken that the verb has place for. -/
theorem readInner_operands {verb : Verb} {operands : List String} (hready : reading.pending = none)
    (honly : reading.operandsOnly = true)
    (hcount : reading.operands.length + operands.length ≤ operandCount (some verb)) :
    readInner verb reading operands
      = .ok { reading with operands := reading.operands ++ operands } := by
  induction operands generalizing reading with
  | nil => rw [List.append_nil]; rfl
  | cons operand operands ih =>
    rw [List.length_cons] at hcount
    have htake : reading.take (some verb) operand
        = .ok { reading with operands := reading.operands ++ [operand] } := by
      have hsettle : reading.settle = .ok reading := by rw [settle, hready]
      rw [take, if_pos honly, takeOperand, if_pos (by omega), hsettle]
      rfl
    have hagain := @ih { reading with operands := reading.operands ++ [operand] } hready honly
      (by simp only [List.length_append, List.length_singleton]; omega)
    rw [readInner, List.foldlM_cons, htake, Outcome.ok_bind]
    rw [readInner] at hagain
    rw [hagain, List.append_assoc, List.singleton_append]

end Reading

/-! ## Every request in good order can be asked for -/

open Reading

section Choices

variable {given result : Given}

theorem addAll_append {next : Given} {front back : List Choice}
    (hfront : addAll given front = .ok next) (hback : addAll next back = .ok result) :
    addAll given (front ++ back) = .ok result := by
  rw [addAll, List.foldlM_append]
  exact Outcome.bind_eq_ok.2 ⟨next, hfront, hback⟩

theorem addAll_toList {parameter : Parameter} {value : Option String}
    (hnone : value = none → given = result)
    (hsome : ∀ text, value = some text → given.accept parameter text = .ok result) :
    addAll given (value.toList.map (.parameter parameter ·)) = .ok result := by
  cases value with
  | none => rw [hnone rfl]; rfl
  | some text => exact Outcome.bind_eq_ok.2 ⟨result, hsome text rfl, rfl⟩

theorem addAll_assigns {assigns : List (String × String)}
    (h : ∀ assign ∈ assigns, IsAssignName assign.1) :
    addAll given (assigns.map fun assign => .parameter .assign (assign.1 ++ "=" ++ assign.2))
      = .ok { given with assigns := given.assigns ++ assigns } := by
  induction assigns generalizing given with
  | nil => rw [List.append_nil]; rfl
  | cons assign assigns ih =>
    obtain ⟨hassign, hrest⟩ := List.forall_mem_cons.1 h
    have hread := readAssign_eq_ok.2 ⟨hassign, rfl⟩
    have haccept : given.accept .assign (assign.1 ++ "=" ++ assign.2)
        = .ok { given with assigns := given.assigns ++ [assign] } := by
      rw [Given.accept]
      simp only [hread, Outcome.ok_bind]
      rfl
    have hagain := @ih { given with assigns := given.assigns ++ [assign] } hrest
    simp only [List.append_assoc, List.singleton_append] at hagain
    exact Outcome.bind_eq_ok.2 ⟨_, haccept, hagain⟩

theorem addAll_mounts (mounts : List String) :
    addAll given (mounts.map (.parameter .mount ·))
      = .ok { given with mounts := given.mounts ++ mounts } := by
  induction mounts generalizing given with
  | nil => rw [List.map_nil, List.append_nil]; rfl
  | cons mount mounts ih =>
    have hagain := @ih { given with mounts := given.mounts ++ [mount] }
    simp only [List.append_assoc, List.singleton_append] at hagain
    exact Outcome.bind_eq_ok.2 ⟨_, rfl, hagain⟩

end Choices

/-- What the outer level says for a request. -/
def Request.given (request : Request) : Given where
  verbosity := some request.verbosity
  settingsFile := request.settingsFile
  root := request.root
  platform := request.platform
  assigns := request.assigns
  mounts := request.mounts
  standardArchives := request.standardArchives
  diskOnly := request.diskOnly

/-- What the inner level says for a command. -/
def Command.given : Command → Given
  | .list _ pattern whole => { pattern := some pattern, whole }
  | _ => {}

theorem Request.addAll_choices {request : Request} (h : request.Sound) :
    addAll {} request.choices = .ok request.given := by
  obtain ⟨verbosity, settingsFile, root, platform, assigns, mounts, standardArchives, diskOnly,
    command⟩ := request
  -- what is given after each group of choices, in the order in which they stand
  have hverbosity : Choice.addTo {} (.parameter .verbosity verbosity.label)
      = .ok { verbosity := some verbosity } := by
    show readVerbosity verbosity.label >>= _ = _
    rw [readVerbosity, Verbosity.ofLabel?_label]
    rfl
  have hsettings : addAll { verbosity := some verbosity }
      (settingsFile.toList.map (.parameter .settingsFile ·))
      = .ok { verbosity := some verbosity, settingsFile } := by
    refine addAll_toList (by rintro rfl; rfl) ?_
    rintro path rfl
    have hpath : readPath .settingsFile path = .ok path :=
      readPath_eq_ok.2 ⟨fun hempty => h.settingsFile (congrArg some hempty), rfl⟩
    exact Outcome.bind_eq_ok.2 ⟨(), rfl, Outcome.bind_eq_ok.2 ⟨path, hpath, rfl⟩⟩
  have hroot : addAll { verbosity := some verbosity, settingsFile }
      (root.toList.map (.parameter .root ·))
      = .ok { verbosity := some verbosity, settingsFile, root } := by
    refine addAll_toList (by rintro rfl; rfl) ?_
    rintro path rfl
    have hpath : readPath .root path = .ok path :=
      readPath_eq_ok.2 ⟨fun hempty => h.root (congrArg some hempty), rfl⟩
    exact Outcome.bind_eq_ok.2 ⟨(), rfl, Outcome.bind_eq_ok.2 ⟨path, hpath, rfl⟩⟩
  have hplatform : addAll { verbosity := some verbosity, settingsFile, root }
      (platform.toList.map (.parameter .platform ·))
      = .ok { verbosity := some verbosity, settingsFile, root, platform } :=
    addAll_toList (by rintro rfl; rfl) (by rintro name rfl; rfl)
  refine Outcome.bind_eq_ok.2 ⟨_, hverbosity, ?_⟩
  refine addAll_append hsettings (addAll_append hroot (addAll_append hplatform ?_))
  refine addAll_append (addAll_assigns h.assigns) (addAll_append (addAll_mounts mounts) ?_)
  cases standardArchives <;> cases diskOnly <;> rfl

theorem Request.allowed_choices (request : Request) : Allowed none request.choices := by
  intro choice hin
  simp only [choices, List.mem_cons, List.mem_append, List.mem_map] at hin
  rcases hin with rfl | ⟨_, _, rfl⟩ | ⟨_, _, rfl⟩ | ⟨_, _, rfl⟩ | ⟨_, _, rfl⟩ | ⟨_, _, rfl⟩
    | hin | hin
  · rfl
  · rfl
  · rfl
  · rfl
  · rfl
  · rfl
  · obtain rfl : choice = .switch .standardArchives := by
      split at hin <;> simp_all
    rfl
  · obtain rfl : choice = .switch .diskOnly := by
      split at hin <;> simp_all
    rfl

theorem Command.addAll_choices (command : Command) :
    addAll {} command.choices = .ok command.given ∧
      Allowed (some command.verb) command.choices := by
  cases command with
  | list path pattern whole =>
    refine ⟨by cases whole <;> rfl, ?_⟩
    rintro choice hin
    rcases List.mem_cons.1 hin with rfl | hin
    · rfl
    · obtain rfl : choice = .switch .whole := by
        split at hin <;> simp_all
      rfl
  | probe | print | copy | checksum | createDirectory | assigns =>
    exact ⟨rfl, fun _ hin => nomatch hin⟩

theorem Command.command?_operands (command : Command) :
    command.verb.command? command.operands command.given = some command := by
  cases command <;> rfl

theorem Command.length_operands (command : Command) :
    command.operands.length = operandCount (some command.verb) := by
  cases command <;> rfl

theorem Verb.label_ne_helpWord (verb : Verb) : verb.label ≠ Reading.helpWord := by
  cases verb <;> decide

/-- Behind its verb, a command is read from its choices and its operands. -/
theorem Command.readInner_spelling (command : Command) :
    readInner command.verb {}
        (command.choices.map Choice.spelling ++ "--" :: command.operands)
      = .ok { given := command.given, operands := command.operands, operandsOnly := true } := by
  obtain ⟨hadd, hallowed⟩ := command.addAll_choices
  have hready : ({} : Reading).Ready := ⟨rfl, rfl⟩
  rw [readInner_choices hready hallowed hadd]
  show readInner command.verb { given := command.given, operandsOnly := true } command.operands = _
  refine readInner_operands rfl rfl ?_
  rw [command.length_operands]
  exact Nat.le_of_eq (Nat.zero_add _)

/-- The request that its own outer level and that of its command make. -/
theorem Request.ofLevels_given (request : Request) :
    Request.ofLevels request.given request.command.given none request.command = request := by
  obtain ⟨verbosity, settingsFile, root, platform, assigns, mounts, standardArchives, diskOnly,
    command⟩ := request
  cases command <;> cases root <;> simp [ofLevels, given, Command.given, innerOr]

/-- The spelling of a request in good order is read as this request. -/
theorem Request.ofArguments_spelling {request : Request} (h : request.Sound) :
    Request.ofArguments request.spelling = .ok request := by
  have hready : ({} : Reading).Ready := ⟨rfl, rfl⟩
  rw [ofArguments, spelling,
    readOuter_choices hready request.allowed_choices (Request.addAll_choices h), readOuter]
  have hverb : (Verb.ofLabel? request.command.verb.label) = some request.command.verb :=
    Verb.ofLabel?_label _
  have hexpects : ({ given := request.given } : Reading).expectsVerb = true := rfl
  simp only [hexpects, hverb, request.command.verb.label_ne_helpWord, decide_false, Bool.and_false,
    Bool.false_eq_true, if_false, if_true]
  rw [readVerb, request.command.readInner_spelling, Outcome.ok_bind, finish_none rfl,
    Outcome.ok_bind]
  simp only [request.command.command?_operands]
  rw [finish_none rfl, Outcome.ok_bind]
  exact congrArg Except.ok request.ofLevels_given

/-- The requests that arguments can make are those in good order. -/
theorem Request.exists_ofArguments_iff {request : Request} :
    (∃ arguments, Request.ofArguments arguments = .ok request) ↔ request.Sound := by
  constructor
  · rintro ⟨arguments, h⟩
    exact Request.sound_ofArguments h
  · intro h
    exact ⟨request.spelling, Request.ofArguments_spelling h⟩

/-- A path that looks like an option is an operand behind two dashes. -/
example : Request.ofArguments ["--log-level=warn", "cat", "--", "-f"]
    = .ok { command := .print "-f" } := by decide

end ArchiveVfs.CommandLine
