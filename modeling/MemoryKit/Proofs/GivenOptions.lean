import MemoryKit.Proofs.ArgumentQueue

/-!
# Options in the command

A command is accepted exactly when it holds what its options say: the last value of each option it
uses, the defaults for those that are not given, and no option besides. So nothing that is given is
ignored, in any order and with any repeats.
-/

namespace MemoryKit.CommandLine

-- powers are those of the core library, whatever else is imported
attribute [local instance (high)] instPowNat

/-! ## 1. What a command holds -/

/-- The generator's setting that an option is about. -/
def Setting.textIn? (settings : Settings) : Setting → Option String
  | .table => some settings.table
  | .blob => some settings.blob
  | .symbolPrefix => some settings.symbolPrefix
  | .symbolSuffix => some settings.symbolSuffix
  | .beginMarker => some settings.beginMarker
  | .endMarker => some settings.endMarker
  | _ => none

namespace Command

def name? : Command → Option String
  | .read .. => some "read"
  | .write .. => some "write"
  | .demo .. => some "demo"
  | .types => some "types"
  | .regen .. => some "regen"
  | .help | .version => none

def target? : Command → Option Target
  | .read target _ | .write target _ | .demo target => some target
  | _ => none

def type? : Command → Option DataType
  | .read _ type => some type
  | .write _ value => some value.type
  | _ => none

def written? : Command → Option Value
  | .write _ value => some value
  | _ => none

def settings? : Command → Option Settings
  | .regen _ settings => some settings
  | _ => none

/-- The options that a command uses. -/
def uses : Command → List Setting
  | .read .. => [.pid, .address, .type, .access]
  | .write .. => [.pid, .address, .type, .access, .value]
  | .demo .. => [.pid, .address, .access]
  | .regen .. => Setting.generator
  | .types | .help | .version => []

/-- The command holds what the text says as the value of an option. -/
def Carries (command : Command) (text : String) : Setting → Prop
  | .pid => ∃ target ∈ command.target?, Number.readInteger? text = some (target.pid.toNat : Int)
  | .address =>
    ∃ target ∈ command.target?, Number.readInteger? text = some (target.address.toNat : Int)
  | .access =>
    ∃ target ∈ command.target?, Number.readInteger? text = some (target.access.toNat : Int)
  | .type => ∃ type ∈ command.type?, DataType.ofName? text = some type
  | .value => ∃ value ∈ command.written?, value.type.read text = .ok value
  | setting => ∃ settings ∈ command.settings?, setting.textIn? settings = some text

/-- The command can do without an option: it does not use the option, or holds the default. -/
def Omits (command : Command) : Setting → Prop
  | .pid | .address => command.target? = none
  | .access => ∀ target ∈ command.target?, target.access = AccessMask.full
  | .type => command.type? = none
  | .value => command.written? = none
  | setting => ∀ settings ∈ command.settings?, setting.textIn? settings = setting.textIn? {}

/-- The command holds what is given for an option. -/
def Holds (command : Command) (setting : Setting) : Option String → Prop
  | some text => command.Carries text setting
  | none => command.Omits setting

/-- The command holds the words behind its name: files, of which there is one when none is named. -/
def Takes (operands : List String) : Command → Prop
  | .regen files _ => files = if operands.isEmpty then [defaultFile] else operands
  | _ => operands = []

variable {command : Command} {setting : Setting}

theorem mem_uses_of_carries {text : String} (h : command.Carries text setting) :
    setting ∈ command.uses := by
  cases command <;> cases setting <;>
    simp [Carries, target?, type?, written?, settings?, uses, Setting.generator] at h ⊢

/-- A command omits the settings that it has no use for. -/
theorem omits_of_not_mem_uses (h : setting ∉ command.uses) : command.Omits setting := by
  cases command <;> cases setting <;>
    simp [Omits, target?, type?, written?, settings?, uses, Setting.generator] at h ⊢

end Command

/-! ## 2. Steps that succeed -/

variable {gs : List Group} {operands words : List String} {command : Command}

theorem bind_eq_ok_iff {ε α β : Type} {x : Except ε α} {f : α → Except ε β} {b : β} :
    (x >>= f) = .ok b ↔ ∃ a, x = .ok a ∧ f a = .ok b := by
  cases x <;> simp [Bind.bind, Except.bind]

theorem pure_eq_ok_iff {ε α : Type} {a b : α} : (pure a : Except ε α) = .ok b ↔ a = b := by
  simp [Pure.pure, Except.pure]

theorem map_eq_ok_iff {ε α β : Type} {f : α → β} {x : Except ε α} {b : β} :
    x.map f = .ok b ↔ ∃ a, x = .ok a ∧ f a = b := by
  cases x <;> simp [Except.map]

theorem mapError_eq_ok_iff {ε ε' α : Type} {f : ε → ε'} {x : Except ε α} {a : α} :
    x.mapError f = .ok a ↔ x = .ok a := by
  cases x <;> simp [Except.mapError]

/-- A number is read exactly when it fits, and then nothing of it is lost. -/
theorem readWord_eq_ok_iff {role : NumberRole} {width : Nat} {text : String}
    {bits : BitVec width} :
    readWord role width text = .ok bits ↔
      Number.readInteger? text = some (bits.toNat : Int) := by
  unfold readWord
  cases Number.readInteger? text with
  | none => simp
  | some n =>
    simp only [Option.some_inj]
    constructor
    · intro h
      split at h
      · rename_i hfits
        have hbits := Except.ok.inj h
        rw [← hbits, BitVec.toNat_ofInt, Int.emod_eq_of_lt hfits.1 (by exact_mod_cast hfits.2)]
        omega
      · cases h
    · rintro rfl
      have hfits : (0 : Int) ≤ bits.toNat ∧ (bits.toNat : Int) < 2 ^ width :=
        ⟨Int.natCast_nonneg _, by exact_mod_cast bits.isLt⟩
      rw [if_pos hfits, BitVec.ofInt_natCast, BitVec.ofNat_toNat, BitVec.setWidth_eq]

theorem require_eq_ok_iff {setting : Setting} {text : String} :
    require gs setting = .ok text ↔ value? gs setting = some text := by
  unfold require
  cases value? gs setting <;> simp

theorem ofName_eq_ok_iff {text : String} {type : DataType} :
    DataType.ofName text = .ok type ↔ DataType.ofName? text = some type := by
  unfold DataType.ofName
  cases DataType.ofName? text <;> simp

/-- A value that is read for a type is of that type. -/
theorem type_eq_of_read {type : DataType} {text : String} {value : Value}
    (h : type.read text = .ok value) : value.type = type := by
  have htrimmed : type.readTrimmed (Text.trim text.toList) = .ok value := mapError_eq_ok_iff.1 h
  cases type with
  | bool | integer t =>
    simp only [DataType.readTrimmed, map_eq_ok_iff] at htrimmed
    obtain ⟨bits, -, rfl⟩ := htrimmed
    rfl
  | floating t =>
    simp only [DataType.readTrimmed] at htrimmed
    split at htrimmed
    · cases htrimmed
      rfl
    · cases htrimmed

theorem refuse_eq_ok_iff {condition : Bool} {error : UsageError} {u : Unit} :
    refuse condition error = .ok u ↔ condition = false := by
  cases condition <;> simp [refuse]

theorem refuseOperands_eq_ok_iff {name : String} {u : Unit} :
    refuseOperands name operands = .ok u ↔ operands = [] := by
  cases operands <;> simp [refuseOperands]

theorem anyGiven_eq_false_iff {settings : List Setting} :
    anyGiven gs settings = false ↔ ∀ setting ∈ settings, value? gs setting = none := by
  simp [anyGiven]

/-! ## 3. Accepted commands -/

/-- The command holds what the groups give for every option. -/
def Command.Agrees (gs : List Group) (command : Command) : Prop :=
  ∀ setting, command.Holds setting (value? gs setting)

theorem agrees_iff_forall : command.Agrees gs ↔
    (∀ setting ∈ Setting.memory, command.Holds setting (value? gs setting)) ∧
      ∀ setting ∈ Setting.generator, command.Holds setting (value? gs setting) := by
  constructor
  · intro h
    exact ⟨fun setting _ => h setting, fun setting _ => h setting⟩
  · rintro ⟨hmemory, hgenerator⟩ setting
    cases setting with
    | pid | address | type | value | access => exact hmemory _ (by decide)
    | _ => exact hgenerator _ (by decide)

/-- Agreement setting by setting, with those of the generator together. -/
theorem agrees_iff : command.Agrees gs ↔
    command.Holds .pid (value? gs .pid) ∧ command.Holds .address (value? gs .address) ∧
      command.Holds .type (value? gs .type) ∧ command.Holds .value (value? gs .value) ∧
        command.Holds .access (value? gs .access) ∧
          ∀ setting ∈ Setting.generator, command.Holds setting (value? gs setting) := by
  simp [agrees_iff_forall, Setting.memory, and_assoc]

/-- An option that is not used must not be given, and then nothing is to be held. -/
theorem holds_iff_of_not_mem_uses {setting : Setting} {given : Option String}
    (h : setting ∉ command.uses) : command.Holds setting given ↔ given = none := by
  cases given with
  | none => exact iff_of_true (Command.omits_of_not_mem_uses h) rfl
  | some text => exact iff_of_false (fun hholds => h (Command.mem_uses_of_carries hholds)) nofun

/-- For settings without a use, to hold is not to be given. -/
theorem forall_holds_iff_of_not_mem_uses {settings : List Setting}
    (h : ∀ setting ∈ settings, setting ∉ command.uses) :
    (∀ setting ∈ settings, command.Holds setting (value? gs setting)) ↔
      ∀ setting ∈ settings, value? gs setting = none :=
  forall₂_congr fun setting hmem => holds_iff_of_not_mem_uses (h setting hmem)

def readAccess (gs : List Group) : Except UsageError AccessMask :=
  match value? gs .access with
  | some mask => readWord .access 32 mask
  | none => .ok AccessMask.full

theorem readTarget_eq : readTarget gs = do
    let pid ← require gs .pid
    let address ← require gs .address
    let access ← readAccess gs
    let pid ← readWord .pid 32 pid
    let address ← readWord .address 64 address
    return ⟨pid, address, access⟩ := by
  unfold readTarget readAccess
  cases value? gs .access <;> rfl

/-- A target is read just when the process, the address and the access hold. -/
theorem readTarget_eq_ok_iff (command : Command) {target : Target}
    (h : command.target? = some target) :
    readTarget gs = .ok target ↔
      command.Holds .pid (value? gs .pid) ∧ command.Holds .address (value? gs .address) ∧
        command.Holds .access (value? gs .access) := by
  have hpid : command.Holds .pid (value? gs .pid) ↔ ∃ text, value? gs .pid = some text ∧
      Number.readInteger? text = some (target.pid.toNat : Int) := by
    cases value? gs .pid <;> simp [Command.Holds, Command.Carries, Command.Omits, h]
  have haddress : command.Holds .address (value? gs .address) ↔
      ∃ text, value? gs .address = some text ∧
        Number.readInteger? text = some (target.address.toNat : Int) := by
    cases value? gs .address <;> simp [Command.Holds, Command.Carries, Command.Omits, h]
  have haccess : command.Holds .access (value? gs .access) ↔
      readAccess gs = .ok target.access := by
    unfold readAccess
    cases value? gs .access with
    | none => simp [Command.Holds, Command.Omits, h, eq_comm]
    | some mask => simp [Command.Holds, Command.Carries, h, readWord_eq_ok_iff]
  -- the order of the reads decides the error, but not whether there is one
  rw [hpid, haddress, haccess, readTarget_eq]
  simp only [bind_eq_ok_iff, require_eq_ok_iff, readWord_eq_ok_iff, pure_eq_ok_iff]
  constructor
  · rintro ⟨first, hfirst, second, hsecond, access, hread, pid, hp, address, ha, rfl⟩
    exact ⟨⟨first, hfirst, hp⟩, ⟨second, hsecond, ha⟩, hread⟩
  · rintro ⟨⟨first, hfirst, hp⟩, ⟨second, hsecond, ha⟩, hread⟩
    exact ⟨first, hfirst, second, hsecond, _, hread, _, hp, _, ha, rfl⟩

theorem readType_eq_ok_iff (command : Command) {type : DataType}
    (h : command.type? = some type) :
    readType gs = .ok type ↔ command.Holds .type (value? gs .type) := by
  simp only [readType, bind_eq_ok_iff, require_eq_ok_iff, mapError_eq_ok_iff, ofName_eq_ok_iff]
  cases value? gs .type <;> simp [Command.Holds, Command.Carries, Command.Omits, h]

theorem textIn?_readSettings {setting : Setting} (h : setting ∈ Setting.generator) :
    setting.textIn? (readSettings gs) = (value? gs setting).or (setting.textIn? {}) := by
  cases setting with
  | pid | address | type | value | access => exact absurd h (by decide)
  | _ => exact Option.or_some.symm

/-- Settings of the generator are read just when each of them holds. -/
theorem readSettings_eq_iff (command : Command) {settings : Settings}
    (h : command.settings? = some settings) :
    readSettings gs = settings ↔
      ∀ setting ∈ Setting.generator, command.Holds setting (value? gs setting) := by
  have hholds (setting : Setting) (hmem : setting ∈ Setting.generator) :
      command.Holds setting (value? gs setting) ↔
        setting.textIn? (readSettings gs) = setting.textIn? settings := by
    rw [textIn?_readSettings hmem]
    revert hmem
    cases value? gs setting <;> cases setting <;>
      simp [Command.Holds, Command.Carries, Command.Omits, h, Setting.generator, eq_comm]
  rw [forall₂_congr hholds]
  constructor
  · rintro rfl _ _
    rfl
  · intro hfields
    cases settings
    simpa [Setting.generator, Setting.textIn?, readSettings] using hfields

def readWritten (gs : List Group) (type : DataType) : Except UsageError Value :=
  match value? gs .value with
  | none => .error .writeWithoutValue
  | some text => (type.read text).mapError .value

theorem writeCommand_eq : writeCommand gs operands = do
    refuse (anyGiven gs Setting.generator) (.generatorSettings "write")
    refuseOperands "write" operands
    let target ← readTarget gs
    let type ← readType gs
    let value ← readWritten gs type
    return .write target value := by
  unfold writeCommand readWritten
  cases value? gs .value <;> rfl

theorem readWritten_eq_ok_iff (command : Command) {value : Value}
    (h : command.written? = some value) :
    readWritten gs value.type = .ok value ↔ command.Holds .value (value? gs .value) := by
  unfold readWritten
  cases value? gs .value <;>
    simp [Command.Holds, Command.Carries, Command.Omits, h, mapError_eq_ok_iff]

theorem type_eq_of_readWritten {type : DataType} {value : Value}
    (h : readWritten gs type = .ok value) : value.type = type := by
  unfold readWritten at h
  split at h
  · cases h
  · exact type_eq_of_read (mapError_eq_ok_iff.1 h)

theorem readCommand_eq_ok_iff : readCommand gs operands = .ok command ↔
    command.name? = some "read" ∧ command.Takes operands ∧ command.Agrees gs := by
  have hagrees (target : Target) (type : DataType) : (Command.read target type).Agrees gs ↔
      (∀ setting ∈ Setting.generator, value? gs setting = none) ∧ value? gs .value = none ∧
        readTarget gs = .ok target ∧ readType gs = .ok type := by
    have hvalue : Setting.value ∉ (Command.read target type).uses := by simp [Command.uses]
    rw [agrees_iff, readTarget_eq_ok_iff (.read target type) rfl,
      readType_eq_ok_iff (.read target type) rfl, holds_iff_of_not_mem_uses hvalue,
      forall_holds_iff_of_not_mem_uses]
    · tauto
    · simp [Command.uses, Setting.generator]
  simp only [readCommand, bind_eq_ok_iff, pure_eq_ok_iff, refuse_eq_ok_iff,
    refuseOperands_eq_ok_iff, anyGiven_eq_false_iff, Option.isSome_eq_false_iff,
    Option.isNone_iff_eq_none]
  constructor
  · rintro ⟨-, hgenerator, -, hoperands, -, hvalue, target, htarget, type, htype, rfl⟩
    exact ⟨rfl, hoperands, (hagrees target type).2 ⟨hgenerator, hvalue, htarget, htype⟩⟩
  · rintro ⟨hname, hoperands, hall⟩
    cases command with
    | read target type =>
      obtain ⟨hgenerator, hvalue, htarget, htype⟩ := (hagrees target type).1 hall
      exact ⟨(), hgenerator, (), hoperands, (), hvalue, target, htarget, type, htype, rfl⟩
    | _ => simp [Command.name?] at hname

theorem writeCommand_eq_ok_iff : writeCommand gs operands = .ok command ↔
    command.name? = some "write" ∧ command.Takes operands ∧ command.Agrees gs := by
  have hagrees (target : Target) (value : Value) : (Command.write target value).Agrees gs ↔
      (∀ setting ∈ Setting.generator, value? gs setting = none) ∧ readTarget gs = .ok target ∧
        readType gs = .ok value.type ∧ readWritten gs value.type = .ok value := by
    rw [agrees_iff, readTarget_eq_ok_iff (.write target value) rfl,
      readType_eq_ok_iff (.write target value) rfl, readWritten_eq_ok_iff (.write target value) rfl,
      forall_holds_iff_of_not_mem_uses]
    · tauto
    · simp [Command.uses, Setting.generator]
  rw [writeCommand_eq]
  simp only [bind_eq_ok_iff, pure_eq_ok_iff, refuse_eq_ok_iff, refuseOperands_eq_ok_iff,
    anyGiven_eq_false_iff]
  constructor
  · rintro ⟨-, hgenerator, -, hoperands, target, htarget, type, htype, value, hvalue, rfl⟩
    obtain rfl := type_eq_of_readWritten hvalue
    exact ⟨rfl, hoperands, (hagrees target value).2 ⟨hgenerator, htarget, htype, hvalue⟩⟩
  · rintro ⟨hname, hoperands, hall⟩
    cases command with
    | write target value =>
      obtain ⟨hgenerator, htarget, htype, hvalue⟩ := (hagrees target value).1 hall
      exact ⟨(), hgenerator, (), hoperands, target, htarget, _, htype, value, hvalue, rfl⟩
    | _ => simp [Command.name?] at hname

theorem demoCommand_eq_ok_iff : demoCommand gs operands = .ok command ↔
    command.name? = some "demo" ∧ command.Takes operands ∧ command.Agrees gs := by
  have hagrees (target : Target) : (Command.demo target).Agrees gs ↔
      (∀ setting ∈ Setting.generator, value? gs setting = none) ∧
        (∀ setting ∈ [Setting.type, .value], value? gs setting = none) ∧
          readTarget gs = .ok target := by
    have htype : Setting.type ∉ (Command.demo target).uses := by simp [Command.uses]
    have hvalue : Setting.value ∉ (Command.demo target).uses := by simp [Command.uses]
    rw [agrees_iff, readTarget_eq_ok_iff (.demo target) rfl, holds_iff_of_not_mem_uses htype,
      holds_iff_of_not_mem_uses hvalue, forall_holds_iff_of_not_mem_uses]
    · simp only [List.forall_mem_cons]
      tauto
    · simp [Command.uses, Setting.generator]
  simp only [demoCommand, bind_eq_ok_iff, pure_eq_ok_iff, refuse_eq_ok_iff,
    refuseOperands_eq_ok_iff, anyGiven_eq_false_iff]
  constructor
  · rintro ⟨-, hgenerator, -, hoperands, -, hfixed, target, htarget, rfl⟩
    exact ⟨rfl, hoperands, (hagrees target).2 ⟨hgenerator, hfixed, htarget⟩⟩
  · rintro ⟨hname, hoperands, hall⟩
    cases command with
    | demo target =>
      obtain ⟨hgenerator, hfixed, htarget⟩ := (hagrees target).1 hall
      exact ⟨(), hgenerator, (), hoperands, (), hfixed, target, htarget, rfl⟩
    | _ => simp [Command.name?] at hname

theorem typesCommand_eq_ok_iff : typesCommand gs operands = .ok command ↔
    command.name? = some "types" ∧ command.Takes operands ∧ command.Agrees gs := by
  have hunused (settings : List Setting) : ∀ setting ∈ settings, setting ∉ Command.types.uses :=
    fun _ _ => List.not_mem_nil
  have hagrees : Command.types.Agrees gs ↔ (∀ setting ∈ Setting.memory, value? gs setting = none) ∧
      ∀ setting ∈ Setting.generator, value? gs setting = none := by
    rw [agrees_iff_forall, forall_holds_iff_of_not_mem_uses (hunused _),
      forall_holds_iff_of_not_mem_uses (hunused _)]
  simp only [typesCommand, bind_eq_ok_iff, pure_eq_ok_iff, refuse_eq_ok_iff,
    refuseOperands_eq_ok_iff, anyGiven_eq_false_iff]
  constructor
  · rintro ⟨-, hgenerator, -, hmemory, -, hoperands, rfl⟩
    exact ⟨rfl, hoperands, hagrees.2 ⟨hmemory, hgenerator⟩⟩
  · rintro ⟨hname, hoperands, hall⟩
    cases command with
    | types =>
      obtain ⟨hmemory, hgenerator⟩ := hagrees.1 hall
      exact ⟨(), hgenerator, (), hmemory, (), hoperands, rfl⟩
    | _ => simp [Command.name?] at hname

/-- `regen` is accepted just when its settings agree and its words are the files. -/
theorem regenCommand_eq_ok_iff : regenCommand gs operands = .ok command ↔
    command.name? = some "regen" ∧ command.Takes operands ∧ command.Agrees gs := by
  have hagrees (files : List String) (settings : Settings) :
      (Command.regen files settings).Agrees gs ↔
        (∀ setting ∈ Setting.memory, value? gs setting = none) ∧ readSettings gs = settings := by
    rw [agrees_iff_forall, readSettings_eq_iff (.regen files settings) rfl,
      forall_holds_iff_of_not_mem_uses]
    simp [Command.uses, Setting.generator, Setting.memory]
  simp only [regenCommand, bind_eq_ok_iff, pure_eq_ok_iff, refuse_eq_ok_iff,
    anyGiven_eq_false_iff]
  constructor
  · rintro ⟨-, hmemory, rfl⟩
    exact ⟨rfl, rfl, (hagrees _ _).2 ⟨hmemory, rfl⟩⟩
  · rintro ⟨hname, hfiles, hall⟩
    cases command with
    | regen files settings =>
      obtain ⟨hmemory, hsettings⟩ := (hagrees files settings).1 hall
      exact ⟨(), hmemory, by rw [hsettings, hfiles]⟩
    | _ => simp [Command.name?] at hname

/-- A command is accepted exactly when the first word names it, it holds the other words and it
holds what is given for every option. -/
theorem commandOfWords_eq_ok_iff : commandOfWords gs words = .ok command ↔
    ∃ name operands, words = name :: operands ∧ command.name? = some name ∧
      command.Takes operands ∧ command.Agrees gs := by
  unfold commandOfWords
  split
  · simp
  · simp [readCommand_eq_ok_iff]
  · simp [writeCommand_eq_ok_iff]
  · simp [demoCommand_eq_ok_iff]
  · simp [typesCommand_eq_ok_iff]
  · simp [regenCommand_eq_ok_iff]
  · rename_i name rest hread hwrite hdemo htypes hregen
    refine iff_of_false nofun ?_
    rintro ⟨first, operands, hwords, hname, -⟩
    obtain ⟨rfl, rfl⟩ := List.cons.inj hwords
    cases command with
    | read => exact hread (Option.some.inj hname).symm
    | write => exact hwrite (Option.some.inj hname).symm
    | demo => exact hdemo (Option.some.inj hname).symm
    | types => exact htypes (Option.some.inj hname).symm
    | regen => exact hregen (Option.some.inj hname).symm
    | help | version => cases hname

/-! ## 4. Nothing is ignored -/

/-- The command ignores nothing that the groups give. -/
structure Command.Heeds (gs : List Group) (command : Command) : Prop where
  /-- An option that is given is one that the command uses. -/
  mem_uses : ∀ setting text, Group.setting setting text ∈ gs → setting ∈ command.uses
  /-- The command holds what the last value of an option says. -/
  carries : ∀ setting text before after, gs = before ++ .setting setting text :: after →
    (∀ later, Group.setting setting later ∉ after) → command.Carries text setting
  omits : ∀ setting, (∀ text, Group.setting setting text ∉ gs) → command.Omits setting
  /-- The first word names the command, and the command holds the words behind it. -/
  takes : ∃ name operands, wordsOf gs = name :: operands ∧ command.name? = some name ∧
    command.Takes operands

/-- A value given later wins. -/
theorem value?_cons (group : Group) (gs : List Group) (setting : Setting) :
    value? (group :: gs) setting = (value? gs setting).or (value? [group] setting) :=
  value?_append [group] gs setting

theorem value?_singleton_setting (setting : Setting) (text : String) :
    value? [.setting setting text] setting = some text := by
  simp [value?, valuesOf]

/-- A setting without a value was never given. -/
theorem value?_eq_none_iff {setting : Setting} :
    value? gs setting = none ↔ ∀ text, Group.setting setting text ∉ gs := by
  simp only [value?, valuesOf, List.getLast?_eq_none_iff, List.filterMap_eq_nil_iff]
  constructor
  · intro h text hmem
    have hnone := h _ hmem
    simp at hnone
  · intro h group hmem
    cases group with
    | setting s text =>
      by_cases hs : s = setting
      · subst hs
        exact absurd hmem (h text)
      · exact if_neg hs
    | flags | word => rfl

/-- A command that agrees with the values and takes the words heeds what was given. -/
theorem heeds_of_agrees (hagrees : command.Agrees gs) (hwords : ∃ name operands,
    wordsOf gs = name :: operands ∧ command.name? = some name ∧ command.Takes operands) :
    command.Heeds gs where
  mem_uses setting text hmem := by
    have hholds := hagrees setting
    cases hvalue : value? gs setting with
    | none => exact absurd hmem (value?_eq_none_iff.1 hvalue text)
    | some last =>
      rw [hvalue] at hholds
      exact Command.mem_uses_of_carries hholds
  carries setting text before after hgs hlast := by
    have hholds := hagrees setting
    rw [hgs, value?_append, value?_cons, value?_eq_none_iff.2 hlast,
      value?_singleton_setting] at hholds
    exact hholds
  omits setting hnone := by
    have hholds := hagrees setting
    rw [value?_eq_none_iff.2 hnone] at hholds
    exact hholds
  takes := hwords

variable {arguments : List String} {invocation : Invocation}

theorem commandOf_eq_ok_of_read (h : read arguments = .ok invocation) :
    ∃ gs, groups arguments = .ok gs ∧ commandOf gs = .ok invocation.command := by
  unfold read at h
  simp only [bind_eq_ok_iff, mapError_eq_ok_iff, pure_eq_ok_iff] at h
  obtain ⟨gs, hgs, command, hcommand, rfl⟩ := h
  exact ⟨gs, hgs, hcommand⟩

/-- A command line that is accepted holds nothing that its command ignores. -/
theorem exists_heeds_of_read (h : read arguments = .ok invocation)
    (hhelp : invocation.command ≠ .help) (hversion : invocation.command ≠ .version) :
    ∃ gs, groups arguments = .ok gs ∧ invocation.command.Heeds gs := by
  obtain ⟨gs, hgs, hcommand⟩ := commandOf_eq_ok_of_read h
  refine ⟨gs, hgs, ?_⟩
  unfold commandOf at hcommand
  split at hcommand
  · exact absurd (Except.ok.inj hcommand).symm hhelp
  split at hcommand
  · exact absurd (Except.ok.inj hcommand).symm hversion
  obtain ⟨name, operands, hwords, hname, htakes, hagrees⟩ := commandOfWords_eq_ok_iff.1 hcommand
  exact heeds_of_agrees hagrees ⟨name, operands, hwords, hname, htakes⟩

/-- A command line with options on both sides of the command, one of them given again. -/
def correctedArguments : List String :=
  ["--pid", "1", "read", "-v", "--pid=7", "-a", "0x10", "-t", "double"]

def correctedInvocation : Invocation where
  command := .read ⟨7, 0x10, AccessMask.full⟩ (.floating .double)
  verbosity := 1
  quiet := false

theorem exists_heeds_correctedArguments :
    read correctedArguments = .ok correctedInvocation ∧
      ∃ gs, groups correctedArguments = .ok gs ∧ correctedInvocation.command.Heeds gs := by
  have hread : read correctedArguments = .ok correctedInvocation := by decide +kernel
  exact ⟨hread, exists_heeds_of_read hread (by decide) (by decide)⟩

end MemoryKit.CommandLine
