import VerifierClient.Cli.Args

/-!
# Which command lines are accepted

After the command `check` come items in any order: options, each with the argument behind it
whatever that looks like, and files. The arguments are read from the left, so an argument that
stands behind an option is never an item itself.

* `Text.parseNumeral_eq_ok_iff` — what is read as a number;
* `CheckArgs.Item`, `CheckArgs.Item.words` — the items and how they are written;
* `CheckArgs.Draft.read_words` — what reading some items comes to;
* `CheckArgs.Draft.exists_items` — nothing else is read;
* `CheckArgs.parse_accepts_grammar` — the command lines that are accepted, and their meaning.
-/

namespace VerifierClient

-- ---------------------------------------------------------------------------
-- Numerals
-- ---------------------------------------------------------------------------

namespace Text

/-- Digits, after at most one plus sign, that denote a number below the limit. -/
def Denotes (limit : Nat) (chars : List Char) (n : Nat) : Prop :=
  ∃ digits, (chars = digits ∨ chars = '+' :: digits) ∧ digits ≠ [] ∧
    (∀ c ∈ digits, c.isDigit = true) ∧ digitsValue digits = n ∧ n < limit

/-- Digits only make a number larger. -/
theorem le_foldl_digits (digits : List Char) (value : Nat) :
    value ≤ digits.foldl (fun n c => 10 * n + digitValue c) value := by
  induction digits generalizing value with
  | nil => exact Nat.le_refl value
  | cons c digits ih =>
    have hrest := ih (10 * value + digitValue c)
    rw [List.foldl_cons]
    omega

theorem readDigits_eq_ok_iff {limit value n : Nat} (hvalue : value < limit) {digits : List Char} :
    readDigits limit value digits = .ok n ↔ (∀ c ∈ digits, c.isDigit = true) ∧
      digits.foldl (fun n c => 10 * n + digitValue c) value = n ∧ n < limit := by
  induction digits generalizing value with
  | nil =>
    rw [readDigits, Except.ok.injEq, List.foldl_nil]
    constructor
    · rintro rfl
      exact ⟨nofun, rfl, hvalue⟩
    · exact fun h => h.2.1
  | cons c digits ih =>
    rw [readDigits, List.foldl_cons, List.forall_mem_cons]
    by_cases hdigit : c.isDigit = true
    · rw [if_pos hdigit]
      by_cases hnext : 10 * value + digitValue c < limit
      · rw [if_pos hnext, ih hnext, and_iff_right hdigit]
      · -- a number that is too large stays so, whatever digits follow
        have hlarge := le_foldl_digits digits (10 * value + digitValue c)
        rw [if_neg hnext]
        refine ⟨nofun, ?_⟩
        rintro ⟨-, rfl, hlt⟩
        omega
    · rw [if_neg hdigit]
      exact ⟨nofun, fun h => absurd h.1.1 hdigit⟩

theorem parseNumeral_eq_ok_iff {limit n : Nat} (hlimit : 0 < limit) {chars : List Char} :
    parseNumeral limit chars = .ok n ↔ Denotes limit chars n := by
  have hplus : '+'.isDigit = false := rfl
  unfold Denotes
  fun_cases parseNumeral limit chars with
  | case1 =>
    refine ⟨nofun, ?_⟩
    rintro ⟨digits, rfl | hchars, hne, -⟩
    · exact absurd rfl hne
    · cases hchars
  | case2 =>
    refine ⟨nofun, ?_⟩
    rintro ⟨digits, rfl | hchars, hne, hdigits, -⟩
    · simp [hplus] at hdigits
    · exact absurd (List.cons.inj hchars).2.symm hne
  | case3 digits hmore =>
    rw [readDigits_eq_ok_iff hlimit]
    constructor
    · rintro ⟨hdigits, hvalue, hlt⟩
      refine ⟨digits, .inr rfl, ?_, hdigits, hvalue, hlt⟩
      rintro rfl
      exact hmore rfl
    · rintro ⟨digits', rfl | hchars, -, hdigits, hvalue, hlt⟩
      · simp [hplus] at hdigits
      · obtain ⟨-, rfl⟩ := List.cons.inj hchars
        exact ⟨hdigits, hvalue, hlt⟩
  | case4 chars hne hplain hsigned =>
    rw [readDigits_eq_ok_iff hlimit]
    constructor
    · rintro ⟨hdigits, hvalue, hlt⟩
      exact ⟨chars, .inl rfl, hne, hdigits, hvalue, hlt⟩
    · rintro ⟨digits, rfl | rfl, -, hdigits, hvalue, hlt⟩
      · exact ⟨hdigits, hvalue, hlt⟩
      · exact absurd rfl (hsigned digits)

end Text

namespace CheckArgs

-- ---------------------------------------------------------------------------
-- Items
-- ---------------------------------------------------------------------------

/-- A part of a command line. -/
inductive Item where
  | config (path : String)
  /-- the argument that was given, and the number it stands for -/
  | timeout (raw : String) (seconds : Nat)
  | file (name : String)
deriving DecidableEq, Repr

namespace Item

/-- The arguments that an item is written with. -/
def words : Item → List String
  | .config path => ["--config", path]
  | .timeout raw _ => ["--timeout", raw]
  | .file name => [name]

/-- Timeouts are numbers of 64 bits, and files do not begin like options. Anything goes for the path
of a configuration. -/
def IsProper : Item → Prop
  | .config _ => True
  | .timeout raw seconds => Text.Denotes Text.wordLimit raw.toList seconds
  | .file name => ¬['-', '-'] <+: name.toList

def config? : Item → Option String
  | .config path => some path
  | _ => none

def timeout? : Item → Option Nat
  | .timeout _ seconds => some seconds
  | _ => none

def file? : Item → Option String
  | .file name => some name
  | _ => none

end Item

namespace Draft

variable {d d' : Draft} {items : List Item}

-- ---------------------------------------------------------------------------
-- Reading items
-- ---------------------------------------------------------------------------

/-- What the draft `d` becomes by the items. There is room for one file only. -/
structure Yields (d : Draft) (items : List Item) (d' : Draft) : Prop where
  file : d.file.toList ++ items.filterMap Item.file? = d'.file.toList
  config : d'.config = (items.filterMap Item.config?).getLast?.or d.config
  timeout : d'.timeout = (items.filterMap Item.timeout?).getLast?.getD d.timeout

theorem yields_nil : Yields d [] d' ↔ d = d' := by
  constructor
  · rintro ⟨hfile, hconfig, htimeout⟩
    have hfile : d.file = d'.file := by simpa using congrArg List.head? hfile
    cases d
    cases d'
    cases hfile
    cases hconfig
    cases htimeout
    rfl
  · rintro rfl
    exact ⟨List.append_nil _, rfl, rfl⟩

theorem yields_config {path : String} :
    Yields d (.config path :: items) d' ↔ Yields { d with config := some path } items d' := by
  have hcons : (Item.config path :: items).filterMap Item.config? =
      path :: items.filterMap Item.config? := rfl
  have hlast : ((Item.config path :: items).filterMap Item.config?).getLast?.or d.config =
      (items.filterMap Item.config?).getLast?.or (some path) := by
    rw [hcons, List.getLast?_cons]
    cases (items.filterMap Item.config?).getLast? <;> rfl
  exact ⟨fun h => ⟨h.file, h.config.trans hlast, h.timeout⟩,
    fun h => ⟨h.file, h.config.trans hlast.symm, h.timeout⟩⟩

theorem yields_timeout {raw : String} {seconds : Nat} :
    Yields d (.timeout raw seconds :: items) d' ↔
      Yields { d with timeout := seconds } items d' := by
  have hcons : (Item.timeout raw seconds :: items).filterMap Item.timeout? =
      seconds :: items.filterMap Item.timeout? := rfl
  have hlast :
      ((Item.timeout raw seconds :: items).filterMap Item.timeout?).getLast?.getD d.timeout =
        (items.filterMap Item.timeout?).getLast?.getD seconds := by
    rw [hcons, List.getLast?_cons]
    rfl
  exact ⟨fun h => ⟨h.file, h.config, h.timeout.trans hlast⟩,
    fun h => ⟨h.file, h.config, h.timeout.trans hlast.symm⟩⟩

theorem yields_file {name : String} :
    Yields d (.file name :: items) d' ↔
      d.file = none ∧ Yields { d with file := some name } items d' := by
  have hcons : (Item.file name :: items).filterMap Item.file? =
      name :: items.filterMap Item.file? := rfl
  constructor
  · intro h
    have hfile := h.file
    rw [hcons] at hfile
    have hnone : d.file = none := by
      -- a draft has one file at most
      cases hd : d.file with
      | none => rfl
      | some file =>
        rw [hd] at hfile
        cases hd' : d'.file <;> simp [hd'] at hfile
    rw [hnone] at hfile
    exact ⟨hnone, hfile, h.config, h.timeout⟩
  · rintro ⟨hnone, hfile, hconfig, htimeout⟩
    refine ⟨?_, hconfig, htimeout⟩
    rw [hnone, hcons]
    exact hfile

theorem addFile_eq_ok_iff {name : String} : d.addFile name = .ok d' ↔
    ¬['-', '-'] <+: name.toList ∧ d.file = none ∧ d' = { d with file := some name } := by
  have hoption : name.startsWith "--" = true ↔ ['-', '-'] <+: name.toList :=
    String.startsWith_string_iff
  rw [addFile, ← hoption]
  by_cases hdashes : name.startsWith "--" = true
  · simp [hdashes]
  · cases hfile : d.file with
    | none => simp [hdashes, eq_comm]
    | some file => simp [hdashes]

theorem read_config (d : Draft) (path : String) (rest : List String) :
    d.read ("--config" :: path :: rest) = { d with config := some path }.read rest := by
  rw [read]

theorem read_timeout {raw : String} {seconds : Nat}
    (h : Text.Denotes Text.wordLimit raw.toList seconds) (d : Draft) (rest : List String) :
    d.read ("--timeout" :: raw :: rest) = { d with timeout := seconds }.read rest := by
  have hparse := (Text.parseNumeral_eq_ok_iff (by decide)).2 h
  rw [read, hparse]

theorem read_file {name : String} (h : ¬['-', '-'] <+: name.toList) (rest : List String) :
    d.read (name :: rest) = .ok d' ↔
      d.file = none ∧ { d with file := some name }.read rest = .ok d' := by
  have hconfig : name ≠ "--config" := by
    rintro rfl
    exact h (by decide)
  have htimeout : name ≠ "--timeout" := by
    rintro rfl
    exact h (by decide)
  rw [read]
  · cases hadd : d.addFile name with
    | error e =>
      refine ⟨nofun, fun hread => ?_⟩
      rw [addFile_eq_ok_iff.2 ⟨h, hread.1, rfl⟩] at hadd
      cases hadd
    | ok next =>
      obtain ⟨-, hfile, rfl⟩ := addFile_eq_ok_iff.1 hadd
      exact (and_iff_right hfile).symm
  · exact hconfig
  · exact htimeout

/-- Reading items that are as they should be. -/
theorem read_words (h : ∀ item ∈ items, item.IsProper) :
    d.read (items.flatMap Item.words) = .ok d' ↔ Yields d items d' := by
  induction items generalizing d with
  | nil => rw [List.flatMap_nil, read, Except.ok.injEq, yields_nil]
  | cons item items ih =>
    obtain ⟨hitem, hitems⟩ := List.forall_mem_cons.1 h
    rw [List.flatMap_cons]
    cases item with
    | config path =>
      rw [Item.words, List.cons_append, List.singleton_append, read_config, ih hitems,
        yields_config]
    | timeout raw seconds =>
      rw [Item.words, List.cons_append, List.singleton_append, read_timeout hitem, ih hitems,
        yields_timeout]
    | file name =>
      rw [Item.words, List.singleton_append, read_file hitem, ih hitems, yields_file]

/-- What is read consists of items. -/
theorem exists_items {args : List String} (h : d.read args = .ok d') :
    ∃ items : List Item, args = items.flatMap Item.words ∧ ∀ item ∈ items, item.IsProper := by
  fun_induction read d args with
  | case1 d => exact ⟨[], rfl, nofun⟩
  | case2 d => cases h
  | case3 d path rest ih =>
    obtain ⟨items, rfl, hproper⟩ := ih h
    exact ⟨.config path :: items, rfl, List.forall_mem_cons.2 ⟨trivial, hproper⟩⟩
  | case4 d => cases h
  | case5 d raw rest e hparse => cases h
  | case6 d raw rest seconds hparse ih =>
    obtain ⟨items, rfl, hproper⟩ := ih h
    have hraw := (Text.parseNumeral_eq_ok_iff (by decide)).1 hparse
    exact ⟨.timeout raw seconds :: items, rfl, List.forall_mem_cons.2 ⟨hraw, hproper⟩⟩
  | case7 d name rest hconfig htimeout e hadd => cases h
  | case8 d name rest hconfig htimeout next hadd ih =>
    obtain ⟨items, rfl, hproper⟩ := ih h
    have hname := (addFile_eq_ok_iff.1 hadd).1
    exact ⟨.file name :: items, rfl, List.forall_mem_cons.2 ⟨hname, hproper⟩⟩

end Draft

-- ---------------------------------------------------------------------------
-- Command lines
-- ---------------------------------------------------------------------------

/-- What the items mean as a whole: there is one file, and of repeated options the last counts. -/
structure Means (items : List Item) (args : CheckArgs) : Prop where
  file : items.filterMap Item.file? = [args.file]
  config : args.config = (items.filterMap Item.config?).getLast?
  timeout : args.timeout = (items.filterMap Item.timeout?).getLast?.getD 600

/-- The meaning is read off the files, the configurations and the timeouts, however they are
mixed. -/
theorem Means.mixed {items mixed : List Item} {args : CheckArgs} (h : Means items args)
    (hfile : mixed.filterMap Item.file? = items.filterMap Item.file?)
    (hconfig : mixed.filterMap Item.config? = items.filterMap Item.config?)
    (htimeout : mixed.filterMap Item.timeout? = items.filterMap Item.timeout?) :
    Means mixed args := by
  refine ⟨?_, ?_, ?_⟩
  · rw [hfile, h.file]
  · rw [hconfig, h.config]
  · rw [htimeout, h.timeout]

theorem finish_eq_ok_iff {d : Draft} {args : CheckArgs} :
    d.finish = .ok args ↔ d = ⟨some args.file, args.config, args.timeout⟩ := by
  cases d with
  | mk file config timeout =>
    cases args
    cases file <;> simp [Draft.finish]

theorem parse_eq_ok_iff {words : List String} {args : CheckArgs} : parse words = .ok args ↔
    ∃ rest, words = "check" :: rest ∧
      ({} : Draft).read rest = .ok ⟨some args.file, args.config, args.timeout⟩ := by
  cases words with
  | nil => exact ⟨nofun, fun ⟨rest, hwords, _⟩ => by cases hwords⟩
  | cons command rest =>
    simp only [parse, List.cons.injEq]
    by_cases hcommand : command = "check"
    · rw [if_pos hcommand]
      cases hread : ({} : Draft).read rest with
      | ok d =>
        rw [finish_eq_ok_iff]
        constructor
        · rintro rfl
          exact ⟨rest, ⟨hcommand, rfl⟩, hread⟩
        · rintro ⟨rest', ⟨-, rfl⟩, hread'⟩
          exact Except.ok.inj (hread.symm.trans hread')
      | error e =>
        refine ⟨nofun, ?_⟩
        rintro ⟨rest', ⟨-, rfl⟩, hread'⟩
        rw [hread] at hread'
        cases hread'
    · rw [if_neg hcommand]
      exact ⟨nofun, fun ⟨rest', hwords, _⟩ => absurd hwords.1 hcommand⟩

theorem parse_words {items : List Item} (h : ∀ item ∈ items, item.IsProper) {args : CheckArgs} :
    parse ("check" :: items.flatMap Item.words) = .ok args ↔ Means items args := by
  have hyields : Draft.Yields {} items ⟨some args.file, args.config, args.timeout⟩ ↔
      Means items args := by
    constructor
    · rintro ⟨hfile, hconfig, htimeout⟩
      exact ⟨hfile, hconfig.trans Option.or_none, htimeout⟩
    · rintro ⟨hfile, hconfig, htimeout⟩
      exact ⟨hfile, hconfig.trans Option.or_none.symm, htimeout⟩
  rw [parse_eq_ok_iff, ← hyields, ← Draft.read_words h]
  simp

/-- A command line is accepted exactly if it is `check` followed by proper items, one of which is
a file; the file is that one, and the last configuration and the last timeout count, if there are
any. The order in which files, configurations and timeouts are mixed does not matter. -/
theorem parse_accepts_grammar (words : List String) (args : CheckArgs) :
    (parse words = .ok args ↔ ∃ items : List Item, words = "check" :: items.flatMap Item.words ∧
      (∀ item ∈ items, item.IsProper) ∧ items.filterMap Item.file? = [args.file] ∧
      args.config = (items.filterMap Item.config?).getLast? ∧
      args.timeout = (items.filterMap Item.timeout?).getLast?.getD 600) ∧
    ∀ items mixed : List Item, (∀ item ∈ items, item.IsProper) → (∀ item ∈ mixed, item.IsProper) →
      mixed.filterMap Item.file? = items.filterMap Item.file? →
      mixed.filterMap Item.config? = items.filterMap Item.config? →
      mixed.filterMap Item.timeout? = items.filterMap Item.timeout? →
      (parse ("check" :: mixed.flatMap Item.words) = .ok args ↔
        parse ("check" :: items.flatMap Item.words) = .ok args) := by
  refine ⟨⟨fun hparse => ?_, ?_⟩, ?_⟩
  · obtain ⟨rest, rfl, hread⟩ := parse_eq_ok_iff.1 hparse
    obtain ⟨items, rfl, hproper⟩ := Draft.exists_items hread
    obtain ⟨hfile, hconfig, htimeout⟩ := (parse_words hproper).1 hparse
    exact ⟨items, rfl, hproper, hfile, hconfig, htimeout⟩
  · rintro ⟨items, rfl, hproper, hfile, hconfig, htimeout⟩
    exact (parse_words hproper).2 ⟨hfile, hconfig, htimeout⟩
  · intro items mixed hitems hmixed hfile hconfig htimeout
    rw [parse_words hmixed, parse_words hitems]
    exact ⟨fun h => h.mixed hfile.symm hconfig.symm htimeout.symm,
      fun h => h.mixed hfile hconfig htimeout⟩

/-- A value that looks like an option, and the file between the options and behind them. -/
theorem parse_accepts_grammar_mixed :
    parse ["check", "--timeout", "+07", "A.fst", "--config", "--timeout"] =
      .ok ⟨"A.fst", some "--timeout", 7⟩ ∧
    parse ["check", "--config", "--timeout", "--timeout", "+07", "A.fst"] =
      .ok ⟨"A.fst", some "--timeout", 7⟩ := by
  have hseconds : (Item.timeout "+07" 7).IsProper := by
    refine ⟨['0', '7'], .inr rfl, nofun, ?_, rfl, by decide⟩
    simp
  have hfile : (Item.file "A.fst").IsProper := by simp [Item.IsProper]
  have hconfig : (Item.config "--timeout").IsProper := trivial
  have hitems : ∀ item ∈ [Item.timeout "+07" 7, .file "A.fst", .config "--timeout"],
      item.IsProper := by
    simp [hseconds, hfile, hconfig]
  have hmixed : ∀ item ∈ [Item.config "--timeout", .timeout "+07" 7, .file "A.fst"],
      item.IsProper := by
    simp [hseconds, hfile, hconfig]
  have hparse := (parse_accepts_grammar
    ["check", "--timeout", "+07", "A.fst", "--config", "--timeout"]
    ⟨"A.fst", some "--timeout", 7⟩).1.2 ⟨_, rfl, hitems, rfl, rfl, rfl⟩
  exact ⟨hparse, ((parse_accepts_grammar [] ⟨"A.fst", some "--timeout", 7⟩).2 _ _ hitems hmixed
    rfl rfl rfl).2 hparse⟩

end CheckArgs

end VerifierClient
