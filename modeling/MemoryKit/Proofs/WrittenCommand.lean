import MemoryKit.Proofs.DisplayedValue
import MemoryKit.Proofs.GivenOptions

/-!
# Commands written as arguments

Every command has arguments that are read as that command: its word or its flag, each option behind
its long name and an equals sign, and the files. A value may look like an option or hold an equals
sign itself, because the first equals sign ends the name.
-/

namespace MemoryKit.CommandLine

-- powers are those of the core library, whatever else is imported
attribute [local instance (high)] instPowNat

/-! ## 1. Arguments of a command -/

def Setting.argument (setting : Setting) (text : String) : String :=
  setting.longName ++ "=" ++ text

namespace Command

/-- What a command holds for an option, as a text. Numbers may be written in any form. -/
def text? (form : NumberRole → Number.Numeral) (command : Command) : Setting → Option String
  | .pid => command.target?.map fun target => String.ofList ((form .pid).write target.pid.toNat)
  | .address =>
    command.target?.map fun target => String.ofList ((form .address).write target.address.toNat)
  | .access =>
    command.target?.map fun target => String.ofList ((form .access).write target.access.toNat)
  | .type => command.type?.map DataType.name
  | .value => command.written?.map Value.display
  | setting => command.settings?.bind fun settings => setting.textIn? settings

def options (form : NumberRole → Number.Numeral) (command : Command) : List (Setting × String) :=
  Setting.all.filterMap fun setting => (command.text? form setting).map (setting, ·)

def operands : Command → List String
  | .regen files _ => files
  | _ => []

def flag? : Command → Option Flag
  | .help => some .help
  | .version => some .version
  | _ => none

end Command

namespace Invocation

def flags (invocation : Invocation) : List Flag :=
  invocation.command.flag?.toList ++ List.replicate invocation.verbosity .verbose ++
    if invocation.quiet then [.quiet] else []

def arguments (form : NumberRole → Number.Numeral) (invocation : Invocation) : List String :=
  invocation.command.name?.toList ++
    (invocation.command.options form).map (fun option => option.1.argument option.2) ++
    invocation.command.operands ++ invocation.flags.map Flag.shortName

example :
    (mk (.write ⟨7, 0x63DE0C, AccessMask.full⟩ (.integer .int16 (-5))) 0 false).arguments
        (fun | .address => .hex true 8 | _ => .decimal) =
      ["write", "--pid=7", "--address=0x0063DE0C", "--type=int16", "--value=-5",
        "--access=2035711"] := by
  decide

def groups (form : NumberRole → Number.Numeral) (invocation : Invocation) : List Group :=
  invocation.command.name?.toList.map Group.word ++
    (invocation.command.options form).map (fun option => Group.setting option.1 option.2) ++
    invocation.command.operands.map Group.word ++
    invocation.flags.map fun flag => Group.flags [flag]

/-- What has a place in the arguments: as many flags as are counted, a value whose text is read
back, and files, at least one, that are no options. -/
structure IsWritable (invocation : Invocation) : Prop where
  verbosity_le : invocation.verbosity ≤ verbosityLimit
  isIntegral : ∀ target value, invocation.command = .write target value → value.type.isIntegral
  files_ne_nil : ∀ files settings, invocation.command = .regen files settings → files ≠ []
  isFile : ∀ file ∈ invocation.command.operands, file = "-" ∨ file.toList.head? ≠ some '-'

end Invocation

/-! ## 2. The shape of each argument -/

def names : List String :=
  Flag.all.map Flag.shortName ++ Flag.all.map Flag.longName ++
    (Setting.all.map Setting.longName ++ Setting.all.filterMap Setting.shortName?)

theorem head?_of_mem_names {name : String} (h : name ∈ names) :
    name.toList.head? = some '-' := by
  have hall : names.all fun name => name.toList.head? = some '-' := by decide
  simpa using List.all_eq_true.1 hall name h

theorem equals_not_mem_of_mem_names {name : String} (h : name ∈ names) : '=' ∉ name.toList := by
  have hall : names.all fun name => '=' ∉ name.toList := by decide
  simpa using List.all_eq_true.1 hall name h

variable {argument text : String} {setting : Setting}

theorem ofName?_eq_none_of_not_mem_names (h : argument ∉ names) :
    Flag.ofName? argument = none ∧ Setting.ofName? argument = none := by
  simp only [names, List.mem_append, List.mem_map, List.mem_filterMap, not_or, not_exists,
    not_and] at h
  obtain ⟨⟨hshort, hlong⟩, hname, hletter⟩ := h
  constructor
  · rw [Flag.ofName?, List.find?_eq_none]
    intro flag hflag
    simpa using ⟨Ne.symm (hshort flag hflag), Ne.symm (hlong flag hflag)⟩
  · rw [Setting.ofName?, List.find?_eq_none]
    intro setting hsetting
    simpa using ⟨Ne.symm (hname setting hsetting), Ne.symm (hletter setting hsetting)⟩

/-- Without a dash in front an argument is a word. -/
theorem shape_of_head?_ne (h : text.toList.head? ≠ some '-') : shape text = .ok (.word text) := by
  have hno (cs : List Char) : text.toList ≠ '-' :: cs := by
    intro heq
    rw [heq] at h
    exact h rfl
  obtain ⟨hflag, hsetting⟩ := ofName?_eq_none_of_not_mem_names fun hname =>
    h (head?_of_mem_names hname)
  have hcombined : combinedFlags? text.toList = none := by
    apply Option.eq_none_iff_forall_ne_some.2
    intro flags hflags
    exact hno _ (combinedFlags?_eq_some_iff.1 hflags).2
  have hlong : isLong text.toList = false := by
    unfold isLong
    split
    · rename_i heq
      exact absurd heq (hno _)
    · rfl
  have hoption : isOption text.toList = false := by
    unfold isOption
    split
    · rename_i heq
      exact absurd heq (hno _)
    · rfl
  simp only [shape, hflag, hsetting, hcombined, keyValue?, hlong, hoption]
  rfl

theorem shape_of_isFile (h : text = "-" ∨ text.toList.head? ≠ some '-') :
    shape text = .ok (.word text) := by
  rcases h with rfl | h
  · decide
  · exact shape_of_head?_ne h

theorem toList_argument (setting : Setting) (text : String) :
    (setting.argument text).toList = setting.longName.toList ++ '=' :: text.toList := by
  rw [Setting.argument, String.toList_append, String.toList_append, List.append_assoc]
  rfl

/-- The first equals sign is the one behind the name, whatever the value holds. -/
theorem keyValue?_argument (setting : Setting) (text : String) :
    keyValue? (setting.argument text).toList = some (setting.longName, text) := by
  have hname : setting.longName ∈ names := by cases setting <;> decide
  have hlong : isLong (setting.argument text).toList = true := by
    rw [toList_argument]
    cases setting <;> rfl
  rw [keyValue?, if_pos hlong, splitEquals?_eq_some_iff]
  exact ⟨equals_not_mem_of_mem_names hname, toList_argument setting text⟩

/-- A setting that is written with an equals sign is read as its name and value. -/
theorem shape_argument (setting : Setting) (text : String) :
    shape (setting.argument text) = .ok (.keyValue setting text) := by
  have hequals : '=' ∈ (setting.argument text).toList := by
    rw [toList_argument]
    simp
  obtain ⟨hflag, hsetting⟩ := ofName?_eq_none_of_not_mem_names fun hname =>
    equals_not_mem_of_mem_names hname hequals
  have hcombined : combinedFlags? (setting.argument text).toList = none := by
    apply Option.eq_none_iff_forall_ne_some.2
    intro flags hflags
    -- letters of flags hold no equals sign
    obtain ⟨-, htext⟩ := combinedFlags?_eq_some_iff.1 hflags
    rw [htext, List.mem_cons, List.mem_map] at hequals
    rcases hequals with h | ⟨flag, -, h⟩
    · exact absurd h (by decide)
    · cases flag <;> exact absurd h (by decide)
  have hname : Setting.ofLongName? setting.longName = some setting :=
    Setting.ofLongName?_eq_some_iff.2 rfl
  simp only [shape, hflag, hsetting, hcombined, keyValue?_argument, hname]

def combined (flags : List Flag) : String :=
  String.ofList ('-' :: flags.map Flag.letter)

/-- Names have one letter behind a dash or begin with two dashes. -/
theorem combined_not_mem_names {flags : List Flag} (h : 2 ≤ flags.length) :
    combined flags ∉ names := by
  intro hmem
  have hall : names.all fun name =>
      name.toList.length = 2 ∨ name.toList[1]? = some '-' := by decide
  have hname := of_decide_eq_true (List.all_eq_true.1 hall _ hmem)
  rw [combined, String.toList_ofList, List.length_cons, List.length_map, List.getElem?_cons_succ,
    List.getElem?_map, Option.map_eq_some_iff] at hname
  rcases hname with hlength | ⟨flag, -, hletter⟩
  · omega
  · cases flag <;> exact absurd hletter (by decide)

theorem shape_combined {flags : List Flag} (h : 2 ≤ flags.length) :
    shape (combined flags) = .ok (.flags flags) := by
  obtain ⟨hflag, hsetting⟩ := ofName?_eq_none_of_not_mem_names (combined_not_mem_names h)
  have hflags : combinedFlags? (combined flags).toList = some flags := by
    rw [combined, String.toList_ofList]
    exact combinedFlags?_eq_some_iff.2 ⟨h, rfl⟩
  simp only [shape, hflag, hsetting, hflags]

/-! ## 3. The groups of the arguments -/

variable {as bs : List String} {gs gs' : List Group}

/-- What is complete by itself does not reach into the arguments behind it. -/
theorem groups_append_of_ok (hgs : groups as = .ok gs) :
    groups (as ++ bs) = (groups bs).map (gs ++ ·) := by
  fun_induction groups as generalizing gs with
  | case1 =>
    cases hgs
    rw [List.nil_append]
    cases groups bs <;> rfl
  | case2 | case6 => cases hgs
  | case3 _ _ _ h ih | case4 _ _ _ _ h ih | case5 _ _ _ h ih | case7 _ _ h _ _ ih =>
    obtain ⟨gs, hrest, rfl⟩ := map_eq_ok_iff.1 hgs
    simp only [List.cons_append, groups, h, ih hrest]
    cases groups bs <;> rfl

/-- Command lines that can be read can be put together. -/
theorem groups_append (hgs : groups as = .ok gs) (hgs' : groups bs = .ok gs') :
    groups (as ++ bs) = .ok (gs ++ gs') := by
  rw [groups_append_of_ok hgs, hgs']
  rfl

theorem groups_map {α : Type} {spell : α → String} {group : α → Group} {items : List α}
    (h : ∀ item ∈ items, groups [spell item] = .ok [group item]) :
    groups (items.map spell) = .ok (items.map group) := by
  induction items with
  | nil => rfl
  | cons item items ih =>
    have hitem := h item List.mem_cons_self
    have hitems := ih fun other hother => h other (List.mem_cons_of_mem item hother)
    exact groups_append hitem hitems

theorem groups_words {words : List String} (h : ∀ word ∈ words, shape word = .ok (.word word)) :
    groups words = .ok (words.map Group.word) := by
  have hmap : groups (words.map id) = .ok (words.map Group.word) := by
    apply groups_map
    intro word hword
    rw [id, groups, h word hword]
    rfl
  rwa [List.map_id] at hmap

theorem groups_options (options : List (Setting × String)) :
    groups (options.map fun option => option.1.argument option.2) =
      .ok (options.map fun option => Group.setting option.1 option.2) := by
  apply groups_map
  intro option _
  rw [groups, shape_argument]
  rfl

theorem groups_flags (flags : List Flag) :
    groups (flags.map Flag.shortName) = .ok (flags.map fun flag => Group.flags [flag]) := by
  apply groups_map
  intro flag _
  cases flag <;> rfl

theorem shape_of_name? {command : Command} {name : String} (h : command.name? = some name) :
    shape name = .ok (.word name) := by
  apply shape_of_head?_ne
  cases command <;> cases h <;> decide

variable {form : NumberRole → Number.Numeral} {invocation : Invocation}

/-- The arguments of an invocation are read as its groups. -/
theorem groups_arguments (h : invocation.IsWritable) :
    groups (invocation.arguments form) = .ok (invocation.groups form) := by
  have hname : groups invocation.command.name?.toList =
      .ok (invocation.command.name?.toList.map Group.word) :=
    groups_words fun name hname => shape_of_name? (Option.mem_toList.1 hname)
  have hfiles : groups invocation.command.operands =
      .ok (invocation.command.operands.map Group.word) :=
    groups_words fun file hfile => shape_of_isFile (h.isFile file hfile)
  exact groups_append (groups_append (groups_append hname (groups_options _)) hfiles)
    (groups_flags _)

theorem flagsOf_groups : flagsOf (invocation.groups form) = invocation.flags := by
  have hword (words : List String) : flagsOf (words.map Group.word) = [] := by
    simp [flagsOf, List.flatMap_map, List.flatMap_eq_nil_iff]
  have hoption (options : List (Setting × String)) :
      flagsOf (options.map fun option => Group.setting option.1 option.2) = [] := by
    simp [flagsOf, List.flatMap_map, List.flatMap_eq_nil_iff]
  have hflag (flags : List Flag) : flagsOf (flags.map fun flag => Group.flags [flag]) = flags := by
    simp [flagsOf, List.flatMap_map]
  simp only [Invocation.groups, flagsOf_append, hword, hoption, hflag, List.nil_append]

theorem wordsOf_groups : wordsOf (invocation.groups form) =
    invocation.command.name?.toList ++ invocation.command.operands := by
  simp [Invocation.groups, wordsOf, List.filterMap_map]

/-- Each option is written once, and nothing else gives a value. -/
theorem value?_groups : value? (invocation.groups form) = invocation.command.text? form := by
  have hword (words : List String) (setting : Setting) :
      value? (words.map Group.word) setting = none := by
    simp [value?_eq_none_iff]
  have hflag (flags : List Flag) (setting : Setting) :
      value? (flags.map fun flag => Group.flags [flag]) setting = none := by
    simp [value?_eq_none_iff]
  have hoption : value? ((invocation.command.options form).map fun option =>
      Group.setting option.1 option.2) = invocation.command.text? form := by
    rw [Command.options, List.map_filterMap]
    simp only [Option.map_map]
    exact Gathered.value?_settings { given? := invocation.command.text? form }
  funext setting
  rw [Invocation.groups, value?_append, value?_append, value?_append, hword, hword, hflag, hoption,
    Option.none_or, Option.none_or, Option.or_none]

/-! ## 4. The command read back -/

theorem toNat_le_largestMagnitude {width : Nat} (hwidth : width ≤ 127) (bits : BitVec width) :
    bits.toNat ≤ Number.largestMagnitude := by
  have hlt := bits.isLt
  have hle : 2 ^ width ≤ 2 ^ (127 : Nat) := Nat.pow_le_pow_right (by decide) hwidth
  show _ ≤ 2 ^ (127 : Nat) - 1
  omega

theorem ofName?_name (type : DataType) : DataType.ofName? type.name = some type := by
  cases type with
  | bool => decide
  | integer t => cases t <;> decide
  | floating t => cases t <;> decide

/-- An option is written exactly where the command holds something for it. -/
theorem agrees_groups (h : invocation.IsWritable) :
    invocation.command.Agrees (invocation.groups form) := by
  intro setting
  rw [value?_groups]
  -- numbers are read back in every form
  have hnumber {width : Nat} (hwidth : width ≤ 127) (role : NumberRole) (bits : BitVec width) :
      Number.readInteger? (String.ofList ((form role).write bits.toNat)) = some (bits.toNat : Int) :=
    Number.readInteger?_write (form role) (toNat_le_largestMagnitude hwidth bits)
  cases setting with
  | pid | address | access =>
    simp only [Command.text?]
    cases htarget : invocation.command.target? with
    | none => simp [Command.Holds, Command.Omits, htarget]
    | some target => exact ⟨target, htarget, hnumber (by decide) _ _⟩
  | type =>
    rw [Command.text?]
    cases htype : invocation.command.type? with
    | none => exact htype
    | some type => exact ⟨type, htype, ofName?_name type⟩
  | value =>
    rw [Command.text?]
    cases hwritten : invocation.command.written? with
    | none => exact hwritten
    | some value =>
      refine ⟨value, hwritten, read_display ?_⟩
      cases hcommand : invocation.command <;> simp [hcommand, Command.written?] at hwritten
      rw [← hwritten]
      exact h.isIntegral _ _ hcommand
  | _ =>
    simp only [Command.text?]
    cases hsettings : invocation.command.settings? with
    | none => simp [Command.Holds, Command.Omits, hsettings]
    | some settings => exact ⟨settings, hsettings, rfl⟩

theorem takes_operands (h : invocation.IsWritable) :
    invocation.command.Takes invocation.command.operands := by
  cases hcommand : invocation.command with
  | regen files settings =>
    have hne := h.files_ne_nil files settings hcommand
    simp [Command.Takes, Command.operands, hne]
  | _ => rfl

theorem mem_flags_iff {flag : Flag} (hverbose : flag ≠ .verbose) (hquiet : flag ≠ .quiet) :
    flag ∈ invocation.flags ↔ invocation.command.flag? = some flag := by
  unfold Invocation.flags
  cases invocation.quiet <;> simp [hverbose, hquiet]

/-- The groups of an invocation choose its command. -/
theorem commandOf_groups (h : invocation.IsWritable) :
    commandOf (invocation.groups form) = .ok invocation.command := by
  have hhelp : Flag.help ∈ invocation.flags ↔ invocation.command.flag? = some .help :=
    mem_flags_iff nofun nofun
  have hversion : Flag.version ∈ invocation.flags ↔ invocation.command.flag? = some .version :=
    mem_flags_iff nofun nofun
  have hwords (name : String) (hname : invocation.command.name? = some name) :
      commandOfWords (invocation.groups form)
        (invocation.command.name?.toList ++ invocation.command.operands) =
          .ok invocation.command := by
    apply commandOfWords_eq_ok_iff.2
    exact ⟨name, invocation.command.operands, by rw [hname]; rfl, hname, takes_operands h,
      agrees_groups h⟩
  simp only [commandOf, flagsOf_groups, wordsOf_groups, hhelp, hversion]
  cases hcommand : invocation.command with
  | help | version => rfl
  | _ =>
    rw [hcommand] at hwords
    exact hwords _ rfl

/-- The arguments that spell an invocation are read as that invocation. -/
theorem read_arguments (form : NumberRole → Number.Numeral) (h : invocation.IsWritable) :
    read (invocation.arguments form) = .ok invocation := by
  have hverbosity : min verbosityLimit (invocation.flags.count .verbose) = invocation.verbosity := by
    have hle := h.verbosity_le
    have hflag : invocation.command.flag?.toList.count .verbose = 0 := by
      cases invocation.command <;> rfl
    unfold Invocation.flags
    cases invocation.quiet <;> simp [hflag] <;> omega
  have hquiet : decide (Flag.quiet ∈ invocation.flags) = invocation.quiet := by
    unfold Invocation.flags
    cases invocation.command <;> cases invocation.quiet <;> simp [Command.flag?]
  unfold read
  rw [groups_arguments h]
  show (commandOf _ >>= _) = _
  rw [commandOf_groups h, flagsOf_groups, hverbosity, hquiet]
  rfl

/-- Settings whose texts look like options, and the file name of a lone dash. -/
def dashedInvocation : Invocation where
  command := .regen ["-", "", "a.cpp"]
    { table := "", blob := "--help", symbolPrefix := "a=b", symbolSuffix := "-q -v",
      beginMarker := "--", endMarker := "=" }
  verbosity := 2
  quiet := true

theorem read_dashedArguments :
    dashedInvocation.IsWritable ∧
      read ["regen", "--table=", "--blob=--help", "--prefix=a=b", "--suffix=-q -v", "--begin=--",
        "--end==", "-", "", "a.cpp", "-v", "-v", "-q"] = .ok dashedInvocation := by
  have hwritable : dashedInvocation.IsWritable := by
    refine ⟨by decide, nofun, ?_, by decide⟩
    intro files settings hcommand
    cases hcommand
    decide
  exact ⟨hwritable, read_arguments (fun _ => .decimal) hwritable⟩

end MemoryKit.CommandLine
