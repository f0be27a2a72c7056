import Mathlib.Data.List.Induction
import MiniLisp.Proofs.CommandLine.Transcript

/-!
# The first bad argument decides

The arguments of a command line are items, one or two arguments each (`items`). Whether an item can
be used depends on the items before it, and on the files: an option for help or without its value
never can, nor can a second program file, nor a configuration file that is not there or is not a
configuration (`Item.Offends`). The first item that offends decides how the program ends, and none
of the items after it matters; if there is none, the last configuration file alone says how the
program runs, and what is printed is a transcript of it (`behaviour_of_arguments`).

What the program does is watched as a list of actions in order (`behaviour`), so that it can be seen
which files it has read by then, and that it prints nothing. Readers of items follow the items from
the left: what has been understood of those so far (`Understood`) is kept by each one that does not
offend, and so it is known where the first one that does is met.
-/

namespace MiniLisp.CommandLine

/-! ## Items -/

/-- What one argument, or two, is there for. -/
inductive Item where
  /-- `--config` and the argument after it, whatever that is. -/
  | config (file : String)
  /-- `--config` as the last argument. -/
  | bareConfig
  | help
  | path (file : String)
deriving DecidableEq, Repr

/-- The items of a command line, from left to right. -/
def items : List String → List Item
  | [] => []
  | ["--config"] => [.bareConfig]
  | "--config" :: file :: rest => .config file :: items rest
  | argument :: rest =>
    (if argument = "-h" ∨ argument = "--help" then .help else .path argument) :: items rest

/-- The value of an option is no option. -/
example : items ["--config", "--help", "a", "-h"] = [.config "--help", .path "a", .help] := by
  decide

/-- An item that cannot be used after these earlier ones, the exit status that follows and what is
said of it: the usage, or the file with what could not be done with it. -/
inductive Item.Offends (files : String → Option String) (earlier : List Item) :
    Item → UInt32 → Refusal → Prop
  | bareConfig : Offends files earlier .bareConfig 2 .usage
  | help : Offends files earlier .help 2 .usage
  | secondPath {first file : String} (h : .path first ∈ earlier) :
    Offends files earlier (.path file) 2 .usage
  | unreadable {file : String} (h : files file = none) :
    Offends files earlier (.config file) 1 (.reading file)
  | invalid {file text : String} {fault : Json.Fault} (hread : files file = some text)
    (h : Config.ofJson text = .error fault) :
    Offends files earlier (.config file) 1 (.parsing file fault)

/-- None of some items offends. -/
def Usable (files : String → Option String) (l : List Item) : Prop :=
  ∀ earlier item later, l = earlier ++ item :: later →
    ∀ status refusal, ¬ item.Offends files earlier status refusal

/-- The configuration that usable items ask for is that of the last configuration file, and of no
other one: what that does not set is as usual. Without a configuration file all is. -/
structure Configured (files : String → Option String) (l : List Item) (config : Config) : Prop where
  standard : (∀ file, .config file ∉ l) → config = ⟨10000, true⟩
  last : ∀ {earlier file later}, l = earlier ++ .config file :: later →
    (∀ other, .config other ∉ later) → ∃ text settings rest, files file = some text ∧
      Config.ofJson text = .ok config ∧ Config.readSettings text.toList = .ok (settings, rest) ∧
      config = ⟨settings.maxDepth.getD 10000, settings.echo.getD true⟩

/-! ## Reading items -/

section Reading

variable {m : Type → Type} [Monad m]

/-- Reads the items from left to right, after those that have given `inv`. -/
def readItems (read : String → m (Option String)) (inv : Invocation) :
    List Item → m (Except Refusal Invocation)
  | [] => pure (.ok inv)
  | .bareConfig :: _ | .help :: _ => pure (.error .usage)
  | .path file :: rest =>
    if inv.program.isSome then pure (.error .usage)
    else readItems read { inv with program := some file } rest
  | .config file :: rest => do
    match (← read file).map Config.ofJson with
    | none => pure (.error (.reading file))
    | some (.error fault) => pure (.error (.parsing file fault))
    | some (.ok config) => readItems read { inv with config } rest

theorem readItems_argument (read : String → m (Option String)) (inv : Invocation)
    (argument : String) (rest : List Item) :
    readItems read inv ((if argument = "-h" ∨ argument = "--help" then .help
      else .path argument) :: rest) =
      if argument = "-h" ∨ argument = "--help" ∨ inv.program.isSome then pure (.error .usage)
      else readItems read { inv with program := some argument } rest := by
  by_cases hhelp : argument = "-h" ∨ argument = "--help"
  · rw [if_pos hhelp, if_pos (hhelp.imp_right .inl), readItems]
  · obtain ⟨hshort, hlong⟩ := not_or.1 hhelp
    rw [if_neg hhelp, readItems]
    simp only [hshort, hlong, false_or]

/-- **Reading arguments is reading items.** -/
theorem readArguments_eq (read : String → m (Option String)) (inv : Invocation)
    (arguments : List String) :
    readArguments read inv arguments = readItems read inv (items arguments) := by
  induction inv, arguments using readArguments.induct with
  | case1 inv => rfl
  | case2 inv => rfl
  | case3 inv file rest ih =>
    rw [readArguments, items, readItems]
    congr 1
    funext text
    cases text.map Config.ofJson with
    | none => rfl
    | some result =>
      cases result with
      | ok config => exact ih config
      | error fault => rfl
  | case4 inv argument rest hlone hconfig hrefused =>
    rw [readArguments, items, readItems_argument, if_pos hrefused, if_pos hrefused]
    all_goals assumption
  | case5 inv argument rest hlone hconfig hrefused ih =>
    rw [readArguments, items, readItems_argument, if_neg hrefused, if_neg hrefused, ih]
    all_goals assumption

end Reading

/-! ## Watching -/

/-- What the program does. -/
inductive Action where
  | readFile (name : String)
  | readInput
  | print (text : String)
  | refuse (refusal : Refusal)

/-- A computation that keeps a list of its actions. -/
abbrev Watched := StateM (List Action)

namespace Watched

/-- Takes an action and gives its result. -/
def act (action : Action) (result : α) : Watched α := do
  modify (· ++ [action])
  return result

theorem run_act (action : Action) (result : α) (log : List Action) :
    (act action result).run log = (result, log ++ [action]) := rfl

theorem run_bind {x : Watched α} {a : α} {log log' : List Action} (h : x.run log = (a, log'))
    (f : α → Watched β) : (x >>= f).run log = (f a).run log' := by
  rw [StateT.run_bind, h]
  rfl

end Watched

/-- The text of a file, which is watched to be read. -/
def watchFile (files : String → Option String) (file : String) : Watched (Option String) :=
  .act (.readFile file) (files file)

/-- The exit status of the program with these files and this input, and what it does. -/
def behaviour (files : String → Option String) (input : Option String) (arguments : List String) :
    UInt32 × List Action :=
  (program (m := Watched) (watchFile files) (.act .readInput input) (fun text => .act (.print text) ())
    (fun refusal => .act (.refuse refusal) ()) arguments).run []

/-- The configuration files are read, each at its item. -/
def Item.reads : Item → List Action
  | .config file => [.readFile file]
  | .bareConfig | .help | .path _ => []

/-! ## One item -/

/-- What has been understood of some items, which are usable. -/
structure Understood (files : String → Option String) (l : List Item) (inv : Invocation) : Prop
    extends Configured files l inv.config where
  program : ∀ file, inv.program = some file ↔ .path file ∈ l

/-- The settings that a configuration file leaves out are the standard ones. -/
theorem exists_settings {text : String} {config : Config} (h : Config.ofJson text = .ok config) :
    ∃ settings rest, Config.readSettings text.toList = .ok (settings, rest) ∧
      config = ⟨settings.maxDepth.getD 10000, settings.echo.getD true⟩ := by
  obtain ⟨⟨settings, rest⟩, hread, h⟩ := Json.bind_eq_ok.1 h
  refine ⟨settings, rest, hread, ?_⟩
  dsimp only at h
  split at h
  · exact (Json.pure_eq_ok.1 h).symm
  · cases h

/-- An item of a list with one more at its end is this one, or it has been there before. -/
theorem eq_or_of_append_singleton {l earlier later : List Item} {item other : Item}
    (h : l ++ [item] = earlier ++ other :: later) :
    (item = other ∧ later = []) ∨
      ∃ between, later = between ++ [item] ∧ l = earlier ++ other :: between := by
  obtain rfl | ⟨between, last, rfl⟩ := List.eq_nil_or_concat later
  · exact .inl ⟨(List.append_inj_right' h rfl |> List.cons.inj).1, rfl⟩
  · have h : l ++ [item] = (earlier ++ other :: between) ++ [last] := by simpa using h
    obtain ⟨hl, hitem⟩ := List.append_inj' h rfl
    obtain rfl := (List.cons.inj hitem).1
    exact .inr ⟨between, by simp, hl⟩

namespace Configured

variable {files : String → Option String} {l : List Item} {config : Config}

theorem snoc (h : Configured files l config) {item : Item} (hitem : ∀ file, .config file ≠ item) :
    Configured files (l ++ [item]) config where
  standard hnone := h.standard fun file hfile => hnone file (List.mem_append_left _ hfile)
  last {earlier file later} heq hlater := by
    obtain ⟨rfl, -⟩ | ⟨between, rfl, hl⟩ := eq_or_of_append_singleton heq
    · exact absurd rfl (hitem file)
    · exact h.last hl fun other hother => hlater other (List.mem_append_left _ hother)

theorem snoc_config {file text : String} (hread : files file = some text)
    (hconfig : Config.ofJson text = .ok config) : Configured files (l ++ [.config file]) config where
  standard hnone := absurd (List.mem_append_right l (List.mem_singleton_self _)) (hnone file)
  last {earlier other later} heq hlater := by
    obtain ⟨hother, -⟩ | ⟨between, rfl, hl⟩ := eq_or_of_append_singleton heq
    · obtain rfl := Item.config.inj hother
      obtain ⟨settings, rest, hsettings, rfl⟩ := exists_settings hconfig
      exact ⟨text, settings, rest, hread, hconfig, hsettings, rfl⟩
    · exact absurd (List.mem_append_right between (List.mem_singleton_self _)) (hlater file)

end Configured

namespace Understood

variable {files : String → Option String} {l : List Item} {inv : Invocation}

theorem nil (files : String → Option String) : Understood files [] ⟨.standard, none⟩ where
  standard _ := rfl
  last h _ := by simp at h
  program file := by simp

/-- An item that offends is refused. -/
theorem readItems_of_offends (h : Understood files l inv) {item : Item} {status : UInt32}
    {refusal : Refusal} (hitem : item.Offends files l status refusal) :
    refusal.status.toUInt32 = status ∧ ∀ rest log,
      (readItems (watchFile files) inv (item :: rest)).run log =
        (.error refusal, log ++ item.reads) := by
  cases hitem with
  | bareConfig => exact ⟨rfl, fun rest log => by rw [Item.reads, List.append_nil]; rfl⟩
  | help => exact ⟨rfl, fun rest log => by rw [Item.reads, List.append_nil]; rfl⟩
  | secondPath hfirst =>
    have hsome : inv.program.isSome = true := by rw [(h.program _).2 hfirst]; rfl
    refine ⟨rfl, fun rest log => ?_⟩
    rw [readItems, if_pos hsome, Item.reads, List.append_nil]
    rfl
  | unreadable hread =>
    refine ⟨rfl, fun rest log => ?_⟩
    rw [readItems, watchFile, Watched.run_bind (Watched.run_act _ _ _), hread]
    rfl
  | invalid hread hconfig =>
    refine ⟨rfl, fun rest log => ?_⟩
    rw [readItems, watchFile, Watched.run_bind (Watched.run_act _ _ _), hread, Option.map_some,
      hconfig]
    rfl

/-- An item that does not offend is understood as well. -/
theorem readItems_of_not_offends (h : Understood files l inv) {item : Item}
    (hitem : ∀ status refusal, ¬ item.Offends files l status refusal) :
    ∃ inv', Understood files (l ++ [item]) inv' ∧ ∀ rest log,
      (readItems (watchFile files) inv (item :: rest)).run log =
        (readItems (watchFile files) inv' rest).run (log ++ item.reads) := by
  cases item with
  | bareConfig => exact absurd .bareConfig (hitem 2 .usage)
  | help => exact absurd .help (hitem 2 .usage)
  | path file =>
    have hnone : inv.program = none := by
      by_contra hsome
      obtain ⟨first, hfirst⟩ := Option.ne_none_iff_exists'.1 hsome
      exact hitem 2 .usage (.secondPath ((h.program first).1 hfirst))
    refine ⟨{ inv with program := some file }, ⟨h.toConfigured.snoc nofun, fun other => ?_⟩,
      fun rest log => ?_⟩
    · have hother : .path other ∉ l := by rw [← h.program, hnone]; nofun
      simp [hother, eq_comm]
    · rw [readItems, hnone, Item.reads, List.append_nil]
      rfl
  | config file =>
    cases hread : files file with
    | none => exact absurd (.unreadable hread) (hitem 1 (.reading file))
    | some text =>
      cases hconfig : Config.ofJson text with
      | error fault => exact absurd (.invalid hread hconfig) (hitem 1 (.parsing file fault))
      | ok config =>
        refine ⟨{ inv with config }, ⟨.snoc_config hread hconfig, fun other => ?_⟩,
          fun rest log => ?_⟩
        · rw [h.program]
          simp
        · rw [readItems, watchFile, Watched.run_bind (Watched.run_act _ _ _), hread,
            Option.map_some, hconfig]
          rfl

end Understood

/-! ## All items -/

theorem usable_snoc_iff {files : String → Option String} {l : List Item} {item : Item} :
    Usable files (l ++ [item]) ↔
      Usable files l ∧ ∀ status refusal, ¬ item.Offends files l status refusal := by
  constructor
  · intro h
    refine ⟨fun earlier other later hl => h earlier other (later ++ [item]) ?_, h l item [] rfl⟩
    rw [hl, List.append_assoc, List.cons_append]
  · rintro ⟨hl, hitem⟩ earlier other later heq
    obtain ⟨rfl, rfl⟩ | ⟨between, rfl, hbetween⟩ := eq_or_of_append_singleton heq
    · obtain rfl := List.append_cancel_right heq
      exact hitem
    · exact hl earlier other between hbetween

/-- Unless all items are usable, there is a first one that offends. -/
theorem usable_or_offends (files : String → Option String) (l : List Item) :
    Usable files l ∨ ∃ earlier item later status refusal, l = earlier ++ item :: later ∧
      Usable files earlier ∧ item.Offends files earlier status refusal := by
  induction l using List.reverseRecOn with
  | nil => exact .inl fun earlier item later h => by simp at h
  | append_singleton l item ih =>
    obtain hl | ⟨earlier, other, later, status, refusal, rfl, husable, hother⟩ := ih
    · by_cases hitem : ∃ status refusal, item.Offends files l status refusal
      · obtain ⟨status, refusal, hitem⟩ := hitem
        exact .inr ⟨l, item, [], status, refusal, rfl, hl, hitem⟩
      · push Not at hitem
        exact .inl (usable_snoc_iff.2 ⟨hl, hitem⟩)
    · refine .inr ⟨earlier, other, later ++ [item], status, refusal, ?_, husable, hother⟩
      rw [List.append_assoc, List.cons_append]

/-- **Usable items are understood one after the other**, whatever follows them, by induction on
them from the left. -/
theorem Usable.exists_understood {files : String → Option String} {l : List Item}
    (h : Usable files l) : ∃ inv, Understood files l inv ∧ ∀ rest log,
      (readItems (watchFile files) ⟨.standard, none⟩ (l ++ rest)).run log =
        (readItems (watchFile files) inv rest).run (log ++ l.flatMap Item.reads) := by
  induction l using List.reverseRecOn with
  | nil => exact ⟨_, .nil files, fun rest log => by rw [List.flatMap_nil, List.append_nil]; rfl⟩
  | append_singleton l item ih =>
    obtain ⟨hl, hitem⟩ := usable_snoc_iff.1 h
    obtain ⟨inv, hinv, hrun⟩ := ih hl
    obtain ⟨inv', hinv', hstep⟩ := hinv.readItems_of_not_offends hitem
    refine ⟨inv', hinv', fun rest log => ?_⟩
    rw [List.append_assoc, List.singleton_append, hrun, hstep, List.flatMap_append,
      List.append_assoc, List.flatMap_singleton]

/-! ## The program -/

/-- The answers are all that is printed. -/
theorem watched_printAnswers (s : Session) (ps : List (Nat × String)) (log : List Action) :
    (printAnswers (m := Watched) (fun text => .act (.print text) ()) s ps).run log =
      ((), log ++ (answers s ps).map .print) := by
  induction ps generalizing s log with
  | nil =>
    rw [answers, List.map_nil, List.append_nil]
    rfl
  | cons p ps ih =>
    obtain ⟨number, line⟩ := p
    rw [printAnswers, Watched.run_bind (Watched.run_act _ _ _), ih, answers, List.map_cons,
      List.append_assoc, List.singleton_append]

/-- Where the program is to be read from, its text, if it can be read, and what is said if not. -/
inductive Source (files : String → Option String) (input : Option String) (l : List Item) :
    Action → Option String → Refusal → Prop
  | file {file : String} (h : .path file ∈ l) :
    Source files input l (.readFile file) (files file) (.reading file)
  | input (h : ∀ file, .path file ∉ l) : Source files input l .readInput input .readingInput

section Behaviour

variable {files : String → Option String} {input : Option String} {arguments : List String}
  {log : List Action}

theorem behaviour_of_error {refusal : Refusal}
    (h : (readItems (watchFile files) ⟨.standard, none⟩ (items arguments)).run [] =
      (.error refusal, log)) :
    behaviour files input arguments = (refusal.status.toUInt32, log ++ [.refuse refusal]) := by
  rw [← readArguments_eq] at h
  rw [behaviour, program, load, bind_assoc, Watched.run_bind h]
  rfl

variable {inv : Invocation} {action : Action} {source : Option String} {refusal : Refusal}
  (h : (readItems (watchFile files) ⟨.standard, none⟩ (items arguments)).run [] = (.ok inv, log))
  (hinv : Understood files (items arguments) inv)
  (hsource : Source files input (items arguments) action source refusal)

include h hinv hsource in
/-- The program is read after all of the arguments. -/
theorem load_of_ok :
    (load (watchFile files) (.act .readInput input) arguments).run [] =
      (source.elim (.error refusal) fun text => .ok (inv.config, text), log ++ [action]) := by
  rw [← readArguments_eq] at h
  rw [load, Watched.run_bind h]
  dsimp only
  cases hsource with
  | @file file hfile =>
    rw [(hinv.program file).2 hfile]
    dsimp only
    rw [watchFile, Watched.run_bind (Watched.run_act _ _ _)]
    cases files file <;> rfl
  | input hnone =>
    rw [Option.eq_none_iff_forall_ne_some.2 fun file hfile => hnone file ((hinv.program _).1 hfile)]
    dsimp only
    rw [Watched.run_bind (Watched.run_act _ _ _)]
    cases input <;> rfl

include h hinv hsource in
theorem behaviour_of_unread (hnone : source = none) :
    behaviour files input arguments =
      (refusal.status.toUInt32, log ++ [action] ++ [.refuse refusal]) := by
  subst hnone
  rw [behaviour, program, Watched.run_bind (load_of_ok h hinv hsource)]
  rfl

include h hinv hsource in
theorem behaviour_of_read {text : String} (htext : source = some text) :
    behaviour files input arguments = (0, log ++ [action] ++
      (answers (.start inv.config .unlimited) (programs text)).map .print) := by
  subst htext
  rw [behaviour, program, Watched.run_bind (load_of_ok h hinv hsource)]
  exact Watched.run_bind (watched_printAnswers _ _ _) _

end Behaviour

/-- **The first bad argument decides.** All items are usable, or there is a first one that offends.
Then the program does nothing but read the configuration files up to there and refuse, whatever
follows; the exit status is 2 for a misunderstood argument and 1 for a bad file. If all are usable,
it reads the program after the configuration files. If that fails, the exit status is 1; otherwise
it is 0, and for each line of the program that is not blank it prints its entry in the transcript of
a session in the configuration of the last configuration file, or in the standard one. -/
theorem behaviour_of_arguments (files : String → Option String) (input : Option String)
    (arguments : List String) :
    (Usable files (items arguments) ∨
      ∃ earlier item later status refusal, items arguments = earlier ++ item :: later ∧
        Usable files earlier ∧ item.Offends files earlier status refusal) ∧
    (∀ earlier item later status refusal, items arguments = earlier ++ item :: later →
      Usable files earlier → item.Offends files earlier status refusal →
        behaviour files input arguments =
          (status, (earlier ++ [item]).flatMap Item.reads ++ [.refuse refusal])) ∧
    (Usable files (items arguments) →
      ∃ config, Configured files (items arguments) config ∧
        ∀ action source refusal, Source files input (items arguments) action source refusal →
          (source = none → behaviour files input arguments =
            (1, (items arguments).flatMap Item.reads ++ [action] ++ [.refuse refusal])) ∧
          ∀ text, source = some text → ∃ ls entries, LinesOf text.toList ls ∧
            Transcript (.start config .unlimited) 1 ls entries ∧
            behaviour files input arguments =
              (0, (items arguments).flatMap Item.reads ++ [action] ++
                entries.map fun e => Action.print (feeds e.lines))) := by
  refine ⟨usable_or_offends files _, fun earlier item later status refusal heq husable hitem => ?_,
    fun husable => ?_⟩
  · obtain ⟨inv, hinv, hrun⟩ := husable.exists_understood
    obtain ⟨rfl, hrefused⟩ := hinv.readItems_of_offends hitem
    refine behaviour_of_error ?_
    rw [heq, hrun, hrefused, List.nil_append, List.flatMap_append, List.flatMap_singleton]
  · obtain ⟨inv, hinv, hrun⟩ := husable.exists_understood
    have hall : (readItems (watchFile files) ⟨.standard, none⟩ (items arguments)).run [] =
        (.ok inv, (items arguments).flatMap Item.reads) := by
      have hrun := hrun [] []
      rwa [List.append_nil, List.nil_append] at hrun
    refine ⟨inv.config, hinv.toConfigured, fun action source refusal hsource =>
      ⟨fun hnone => ?_, fun text htext => ?_⟩⟩
    · have hstatus : refusal.status.toUInt32 = 1 := by
        cases hsource <;> rfl
      rw [behaviour_of_unread hall hinv hsource hnone, hstatus]
    · obtain ⟨entries, htranscript, -, htexts⟩ := exists_transcript_of_source inv.config text
      refine ⟨lines text, entries, linesOf_lines text, htranscript, ?_⟩
      rw [behaviour_of_read hall hinv hsource htext, htexts, List.map_map]
      rfl

end MiniLisp.CommandLine
