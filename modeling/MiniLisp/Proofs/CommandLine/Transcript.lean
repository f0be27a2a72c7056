import MiniLisp.CommandLine
import MiniLisp.Proofs.Run.OneLine
import MiniLisp.Proofs.Session.Moments

/-!
# The transcript of a session

The program evaluates the lines of its source that are not blank in one session, one after the
other. For each of them it prints the lines that are printed in the course of the evaluation, and
then the number of the line with its answer (`CommandLine.Transcript`). All of that is on single
lines, so what has been printed can be taken apart again (`CommandLine.program_transcript`).

The program itself clears the records of its session before each line. The session that it has is
then a twin of the one in the transcript, which keeps them.
-/

namespace MiniLisp

/-! ## What is written -/

/-- Bytes that are no more than those of a text are shown as this text. -/
theorem textOfCut_toUTF8 (text : String) : textOfCut text.toUTF8 = text := by
  have hvalid : String.fromUTF8? text.toUTF8 = some text := by
    rw [String.fromUTF8?, String.toUTF8_eq_toByteArray, dif_pos text.isValidUTF8]
    rfl
  rw [textOfCut, hvalid]

/-- What is echoed are the printed lines. -/
theorem echoes_eq (events : List Event) : echoes events = (feeds (printedLines events)).toUTF8 := by
  induction events with
  | nil => rfl
  | cons e events ih =>
    by_cases h : ∃ line, e = .printed line
    · obtain ⟨line, rfl⟩ := h
      have hlines : printedLines (.printed line :: events) = line :: printedLines events := rfl
      rw [echoes, hlines, feeds_cons, ih, Event.echo_printed]
      rfl
    · have hlines : printedLines (e :: events) = printedLines events := by
        cases e with
        | printed line => exact absurd ⟨line, rfl⟩ h
        | _ => rfl
      rw [echoes, hlines, ih, Event.echo_eq_empty fun line he => h ⟨line, he⟩,
        ByteArray.empty_append]

/-- A sink that takes everything has been given the printed lines, if lines are written at all. -/
theorem State.Journaled.written {echo : Bool} {s t : State} {events : List Event}
    (h : State.Journaled echo s events t) (hsink : s.output.sink = .unlimited) :
    t.output.written =
      s.output.written ++ (feeds (if echo then printedLines events else [])).toUTF8 := by
  rw [h.output]
  cases echo with
  | false => exact ByteArray.append_empty.symm
  | true =>
    have hseamless : s.output.sink.Seamless := hsink ▸ .unlimited
    rw [if_pos rfl, if_pos rfl, Output.after_eq hseamless, hsink, ← echoes_eq]
    rfl

/-- The lines that have been printed are those in the journal. -/
theorem State.Printed.eq_of_journaled {echo : Bool} {s t : State} {ls : List String}
    {events : List Event} (h : State.Printed s t ls) (hevents : State.Journaled echo s events t) :
    ls = printedLines events := by
  obtain ⟨others, hothers, rfl⟩ := h.journal
  rw [hevents.journal] at hothers
  rw [List.append_cancel_left hothers]

namespace Session

/-- What a session prints while it evaluates a text. -/
structure Prints (s : Session) (source : String) (printed : List String) : Prop where
  /-- The lines are what it writes. -/
  written : (s.evaluateText source).2.state.output.written =
    s.state.output.written ++ (feeds printed).toUTF8
  /-- There is one for each call of `println` that succeeds, in the order of the calls, between the
  first moment of the program and the last, if printed lines are written. -/
  calls : s.config.echo = true → ∀ tree, parse source = .ok tree → ∃ last,
    (∀ count, s.moment tree (last + count) = s.moment tree last) ∧
      (s.moment tree last).state = (s.evaluateText source).2.state ∧
      printed = s.printedBefore tree last
  /-- There are none otherwise. -/
  muted : s.config.echo = false → printed = []
  /-- Nor are there any if the text is no program. -/
  unread : ∀ fault, parse source = .error fault → printed = []

theorem prints_of_journaled {s : Session} {source : String} {events : List Event}
    (hsink : s.state.output.sink = .unlimited)
    (h : State.Journaled s.config.echo s.state events (s.evaluateText source).2.state) :
    s.Prints source (if s.config.echo then printedLines events else []) where
  written := h.written hsink
  calls hecho tree hparse := by
    obtain ⟨last, hlast, hstate, -⟩ := s.exists_last_moment hparse
    refine ⟨last, hlast, hstate, ?_⟩
    have hprinted := s.printed_moment hsink tree last
    rw [hstate] at hprinted
    rw [if_pos hecho, hprinted.eq_of_journaled h]
  muted hecho := by rw [hecho]; rfl
  unread fault hparse := by
    rw [Session.evaluateText, hparse] at h
    rw [← (State.Printed.none s.state).eq_of_journaled h, ite_self]

end Session

namespace CommandLine

/-! ## Transcripts -/

/-- What the program prints for a line that is not blank. -/
structure Entry where
  number : Nat
  /-- What is printed in the course of the evaluation. -/
  printed : List String
  /-- The text of the value or of the fault. -/
  result : String

/-- An entry, line by line. -/
def Entry.lines (e : Entry) : List String :=
  e.printed ++ [s!"{e.number}: {e.result}"]

/-- What is shown of an answer: a value by its text, a fault by its message. -/
inductive Shown : Except Fault Value → String → Prop
  | value (v : Value) : Shown (.ok v) v.text
  | fault (e : Fault) : Shown (.error e) e.message

/-- The lines of a program, the first one with this number, are evaluated in a session one after the
other, but for those in which there are no tokens, and these are the entries for them. -/
inductive Transcript : Session → Nat → List String → List Entry → Prop
  | done (s : Session) (number : Nat) : Transcript s number [] []
  | skipped {s : Session} {number : Nat} {line : String} {others : List String}
    {entries : List Entry} (h : tokenize line = .ok [])
    (rest : Transcript s (number + 1) others entries) :
    Transcript s number (line :: others) entries
  | evaluated {s : Session} {number : Nat} {line result : String} {others printed : List String}
    {entries : List Entry} (h : tokenize line ≠ .ok []) (hprinted : s.Prints line printed)
    (hresult : Shown (s.evaluateText line).1 result)
    (rest : Transcript (s.evaluateText line).2 (number + 1) others entries) :
    Transcript s number (line :: others) (⟨number, printed, result⟩ :: entries)

/-- The text of an entry is what is printed in the course of the evaluation, then the answer. -/
theorem feeds_lines (number : Nat) (printed : List String) (result : String) :
    feeds (Entry.lines ⟨number, printed, result⟩) =
      feeds printed ++ toString number ++ ": " ++ result ++ "\n" := by
  have hanswer : feeds [s!"{number}: {result}"] = toString number ++ ": " ++ result ++ "\n" := by
    rw [feeds_cons, String.push_eq_append]
    exact String.append_empty
  rw [Entry.lines, feeds_append, hanswer]
  simp only [String.append_assoc]

theorem shown_resultText (answer : Except Fault Value) : Shown answer (resultText answer) := by
  cases answer with
  | ok v => exact .value v
  | error e => exact .fault e

theorem Shown.unbroken {s t : Session} {answer answer' : Except Fault Value × Session}
    {result : String} (hresult : Shown answer.1 result) (h : Session.Answered s t answer answer') :
    Unbroken result := by
  generalize hanswer : answer.1 = shown at hresult
  cases hresult with
  | value v => exact (h.value v hanswer).text
  | fault e => exact h.fault e hanswer

/-- A line is answered by an entry, on single lines. The session of the program, which has cleared
its records, remains a twin of the one that keeps them. -/
theorem exists_answer {s t : Session} (h : Session.Twins s t) (number : Nat) {line : String}
    (hline : Unbroken line) : ∃ printed result, s.Prints line printed ∧
      Shown (s.evaluateText line).1 result ∧
      (∀ l ∈ Entry.lines ⟨number, printed, result⟩, Unbroken l) ∧
      (answer t number line).1 = feeds (Entry.lines ⟨number, printed, result⟩) ∧
      Session.Twins (s.evaluateText line).2 (answer t number line).2 := by
  have hanswered := h.clearRecords.evaluateText hline
  obtain ⟨events, hs, ht, hlines⟩ := hanswered.state.events
  have hprinted : ∀ l ∈ (if s.config.echo then printedLines events else []), Unbroken l := by
    cases s.config.echo with
    | false => simp
    | true => exact hlines
  have hresult := shown_resultText (s.evaluateText line).1
  have hentry : Unbroken s!"{number}: {resultText (s.evaluateText line).1}" := by
    change Unbroken (number.repr ++ ": " ++ resultText (s.evaluateText line).1)
    simp only [unbroken_append, unbroken_natRepr, hresult.unbroken hanswered]
    decide
  have hwritten : (t.clearRecords.evaluateText line).2.state.output.text =
      feeds (if s.config.echo then printedLines events else []) := by
    rw [Output.text, ht.written h.state.sinks.2]
    change textOfCut (.empty ++ _) = _
    rw [ByteArray.empty_append, textOfCut_toUTF8]
  refine ⟨_, _, Session.prints_of_journaled h.state.sinks.1 hs, hresult,
    List.forall_mem_append.2 ⟨hprinted, by simpa using hentry⟩, ?_, hanswered.twins⟩
  change (t.clearRecords.evaluateText line).2.state.output.text ++ toString number ++ ": " ++
    resultText (t.clearRecords.evaluateText line).1 ++ "\n" = _
  rw [feeds_lines, hwritten, hanswered.answer_eq]

/-- The lines that are to be evaluated, of some lines of which the first one has this number. -/
def numbered (number : Nat) (ls : List String) : List (Nat × String) :=
  (ls.zipIdx number).filterMap fun (line, number) =>
    if isBlankLine line then none else some (number, line)

theorem numbered_cons (number : Nat) (line : String) (ls : List String) :
    numbered number (line :: ls) =
      if isBlankLine line then numbered (number + 1) ls
      else (number, line) :: numbered (number + 1) ls := by
  cases hblank : isBlankLine line with
  | true => simp [numbered, hblank]
  | false => simp [numbered, hblank]

/-- **What is printed for some lines** is their transcript, entry by entry, by induction on them. -/
theorem exists_transcript {s t : Session} (h : Session.Twins s t) (number : Nat) {ls : List String}
    (hls : ∀ line ∈ ls, Unbroken line) : ∃ entries, Transcript s number ls entries ∧
      (∀ line ∈ entries.flatMap Entry.lines, Unbroken line) ∧
      answers t (numbered number ls) = entries.map fun e => feeds e.lines := by
  induction ls generalizing s t number with
  | nil => exact ⟨[], .done s number, by simp, rfl⟩
  | cons line ls ih =>
    obtain ⟨hline, hothers⟩ := List.forall_mem_cons.1 hls
    rw [numbered_cons]
    by_cases hblank : isBlankLine line = true
    · obtain ⟨entries, htranscript, hlines, htexts⟩ := ih h (number + 1) hothers
      rw [if_pos hblank]
      exact ⟨entries, .skipped (isBlankLine_iff.1 hblank) htranscript, hlines, htexts⟩
    · obtain ⟨printed, result, hprinted, hresult, hentry, hanswer, htwins⟩ :=
        exists_answer h number hline
      obtain ⟨entries, htranscript, hlines, htexts⟩ := ih htwins (number + 1) hothers
      rw [if_neg hblank]
      refine ⟨_, .evaluated (fun h => hblank (isBlankLine_iff.2 h)) hprinted hresult htranscript,
        ?_, ?_⟩
      · rw [List.flatMap_cons]
        exact List.forall_mem_append.2 ⟨hentry, hlines⟩
      · change (answer t number line).1 :: answers (answer t number line).2 _ = _
        rw [hanswer, htexts, List.map_cons]

/-- The texts of some entries, put together. -/
theorem join_feeds (entries : List Entry) :
    String.join (entries.map fun e => feeds e.lines) = feeds (entries.flatMap Entry.lines) := by
  induction entries with
  | nil => rfl
  | cons e entries ih =>
    rw [List.map_cons, String.join_cons, ih, List.flatMap_cons, feeds_append]

/-- The program prints a transcript of the lines of its source. -/
theorem exists_transcript_of_source (config : Config) (source : String) :
    ∃ entries, Transcript (.start config .unlimited) 1 (lines source) entries ∧
      (∀ line ∈ entries.flatMap Entry.lines, Unbroken line) ∧
      answers (.start config .unlimited) (programs source) =
        entries.map fun e => feeds e.lines :=
  exists_transcript (Session.Twins.start config) 1 (linesOf_lines source).unbroken

/-! ## The program -/

/-- What the program does with these files and this input: its exit status and its output. -/
def outcome (files : String → Option String) (input : Option String) (arguments : List String) :
    UInt32 × String :=
  (program (m := StateM String) (fun file => pure (files file)) (pure input)
    (fun text => modify (· ++ text)) (fun _ => pure ()) arguments).run ""

section Pure

variable {m : Type → Type} [Monad m] [LawfulMonad m] (files : String → Option String)
  (input : Option String)

theorem readArguments_pure (inv : Invocation) (arguments : List String) :
    readArguments (fun file => (pure (files file) : m (Option String))) inv arguments =
      pure (readArguments (fun file => (pure (files file) : Id (Option String))) inv arguments) := by
  induction inv, arguments using readArguments.induct with
  | case1 inv => rfl
  | case2 inv => rfl
  | case3 inv file rest ih =>
    rw [readArguments, readArguments, pure_bind, pure_bind]
    cases (files file).map Config.ofJson with
    | none => rfl
    | some result =>
      cases result with
      | ok config => exact ih config
      | error e => rfl
  | case4 inv argument rest hlone hconfig hrefused =>
    rw [readArguments, readArguments, if_pos hrefused, if_pos hrefused]
    · rfl
    all_goals assumption
  | case5 inv argument rest hlone hconfig hrefused ih =>
    rw [readArguments, readArguments, if_neg hrefused, if_neg hrefused]
    · exact ih
    all_goals assumption

/-- What the arguments ask for does not depend on the monad in which files are read. -/
theorem load_pure (arguments : List String) :
    load (fun file => (pure (files file) : m (Option String))) (pure input) arguments =
      pure (load (fun file => (pure (files file) : Id (Option String))) (pure input)
        arguments) := by
  have id_bind {α β : Type} (x : Id α) (f : α → Id β) : (x >>= f) = f x := rfl
  rw [load, load, readArguments_pure, pure_bind, id_bind]
  cases readArguments (fun file => (pure (files file) : Id (Option String))) _ arguments with
  | error refusal => rfl
  | ok inv =>
    obtain ⟨config, program⟩ := inv
    cases program with
    | none =>
      dsimp only
      rw [pure_bind, pure_bind]
      cases input <;> rfl
    | some file =>
      dsimp only
      rw [pure_bind, pure_bind]
      cases files file <;> rfl

end Pure

/-- Answers are printed one after the other. -/
theorem printAnswers_run (t : Session) (ps : List (Nat × String)) (out : String) :
    (printAnswers (m := StateM String) (fun text => modify (· ++ text)) t ps).run out =
      ((), out ++ String.join (answers t ps)) := by
  induction ps generalizing t out with
  | nil =>
    rw [answers, String.join_nil, String.append_empty]
    rfl
  | cons p ps ih =>
    obtain ⟨number, line⟩ := p
    change (printAnswers (m := StateM String) _ (answer t number line).2 ps).run
      (out ++ (answer t number line).1) = _
    rw [ih, answers, String.join_cons, String.append_assoc]

/-- If the arguments and the files are usable, the program exits 0 and prints the answers. -/
theorem outcome_of_load {files : String → Option String} {input : Option String}
    {arguments : List String} {config : Config} {source : String}
    (h : load (m := Id) files input arguments = .ok (config, source)) :
    outcome files input arguments = (0, transcript config source) := by
  have hanswers := printAnswers_run (.start config .unlimited) (programs source) ""
  rw [String.empty_append] at hanswers
  have hload : load (fun file => (pure (files file) : Id (Option String))) (pure input) arguments =
      .ok (config, source) := h
  rw [outcome, program, load_pure, pure_bind, hload]
  dsimp only
  rw [StateT.run_bind, hanswers]
  rfl

/-- **The output is a transcript of a session.** Each line of the source in which there are tokens
is evaluated in the session that the lines before it have left, whether they had values or not, and
has an entry, with its number among all lines: what calls of `println` print on the way, and the
value or the fault. The program exits 0 and prints the entries and nothing else. No line of an entry
has a line feed in it, so these are the lines of the output. -/
theorem program_transcript (config : Config) (source : String) :
    LinesOf source.toList (lines source) ∧
      ∃ entries, Transcript (.start config .unlimited) 1 (lines source) entries ∧
        transcript config source = feeds (entries.flatMap Entry.lines) ∧
        (∀ line ∈ entries.flatMap Entry.lines, Unbroken line) ∧
        (transcript config source).toList.splitOn '\n' =
          (entries.flatMap Entry.lines).map String.toList ++ [[]] ∧
        ∀ files input arguments, load (m := Id) files input arguments = .ok (config, source) →
          outcome files input arguments = (0, transcript config source) := by
  obtain ⟨entries, htranscript, hlines, htexts⟩ := exists_transcript_of_source config source
  have htext : transcript config source = feeds (entries.flatMap Entry.lines) := by
    rw [transcript, htexts, join_feeds]
  refine ⟨linesOf_lines source, entries, htranscript, htext, hlines, ?_, fun _ _ _ h => ?_⟩
  · rw [htext]
    exact splitOn_feeds hlines
  · exact outcome_of_load h

/-- Without arguments the source is the standard input. -/
example (files : String → Option String) (source : String) :
    load (m := Id) files (some source) [] = .ok (.standard, source) := rfl

end CommandLine

end MiniLisp
