import MiniLisp.Proofs.Session.Steps

/-!
# A sink that fills up

A sink with room for a limited number of bytes truncates the output of a program and stops it, and
does nothing else (`Session.evaluateText_capacity`). The run is compared with the one over a sink
that takes everything. They go through the same events until a line does not fit, and at this line
the first one fails.
-/

namespace MiniLisp

/-- Since `start` the two states have seen the same events, whose lines fit into `room`: the first
state has what is left of it, and the second one has no limit. -/
structure State.Fits (start : State) (room : Nat) (events : List Event) (s t : State) : Prop where
  environment : t.environment = s.environment
  journal : t.journal = s.journal
  declarations : t.declarations = s.declarations
  since : s.journal.toList = start.journal.toList ++ events
  fits : (echoes events).size ≤ room
  bounded : s.output.sink = .bounded (room - (echoes events).size)
  unlimited : t.output.sink = .unlimited

/-- The first run was stopped by a line that did not fit any more; the second one went on. -/
structure State.Truncated (start : State) (room : Nat) (e : Fault) (s t : State) : Prop where
  full : e = .output "sink is full"
  last : ∃ events line, s.journal.toList = start.journal.toList ++ (events ++ [.printed line]) ∧
    (echoes events).size ≤ room ∧ room < (echoes (events ++ [.printed line])).size
  continued : ∃ more, t.journal = s.journal ++ more

namespace State.Fits

variable {start s t : State} {room : Nat} {events : List Event}

/-- An event without a line leaves the room as it is. -/
theorem reported (h : Fits start room events s t) {e : Event} (he : ∀ line, e ≠ .printed line) :
    Fits start room (events ++ [e]) (s.reported e) (t.reported e) := by
  have hechoes : echoes (events ++ [e]) = echoes events := by
    rw [echoes_append, echoes_singleton, Event.echo_eq_empty he, ByteArray.append_empty]
  refine ⟨h.environment, congrArg (·.push e) h.journal, h.declarations, ?_, ?_, ?_, h.unlimited⟩
  · rw [State.reported, Array.toList_push, h.since, List.append_assoc]
  · exact hechoes ▸ h.fits
  · exact hechoes ▸ h.bounded

theorem define (h : Fits start room events s t) (name : String) (value : Value) :
    Fits start room events { s with environment := s.environment.define name value }
      { t with environment := t.environment.define name value } :=
  { h with environment := congrArg (·.define name value) h.environment }

theorem withDeclarations (h : Fits start room events s t) (count : Nat) :
    Fits start room events { s with declarations := count } { t with declarations := count } :=
  { h with declarations := rfl }

/-- A line that fits is written. -/
theorem writeLine (h : Fits start room events s t) {line : String}
    (hline : (echoes (events ++ [.printed line])).size ≤ room) :
    Fits start room (events ++ [.printed line])
      { s.reported (.printed line) with output := s.output.writeLine line }
      { t.reported (.printed line) with output := t.output.writeLine line } := by
  refine ⟨h.environment, congrArg (·.push (.printed line)) h.journal, h.declarations, ?_, hline,
    ?_, ?_⟩
  · change (s.journal.push _).toList = _
    rw [Array.toList_push, h.since, List.append_assoc]
  · change s.output.sink.after (Output.bytesOfLine line) = _
    rw [h.bounded, Sink.after_bounded, echoes_append, echoes_singleton, ByteArray.size_append,
      Nat.sub_sub]
    rfl
  · change t.output.sink.after (Output.bytesOfLine line) = _
    rw [h.unlimited]
    rfl

/-- A line that does not fit stops the first run. -/
theorem truncated (h : Fits start room events s t) {line : String}
    (hline : room < (echoes (events ++ [.printed line])).size) :
    Truncated start room (.output "sink is full")
      { s.reported (.printed line) with output := s.output.writeLine line }
      { t.reported (.printed line) with output := t.output.writeLine line } := by
  refine ⟨rfl, ⟨events, line, ?_, h.fits, hline⟩, #[], ?_⟩
  · change (s.journal.push _).toList = _
    rw [Array.toList_push, h.since, List.append_assoc]
  · change t.journal.push _ = s.journal.push _ ++ #[]
    rw [Array.append_empty, h.journal]

end State.Fits

namespace Simulation

section Fitting

variable (start : State) (room : Nat)

/-- Runs on the same trees and values, the first one over a sink with limited room. -/
def fitting : Simulation :=
  same (fun s t => ∃ events, State.Fits start room events s t) (fun _ => True) (fun _ => True)
    (fun e f => e = f) (State.Truncated start room)

variable {start room}

theorem fitting_steps :
    StepLaws (fun s t => ∃ events, State.Fits start room events s t) (fun _ => True)
      (fun _ => True) where
  atom _ _ := True.intro
  found := by
    rintro s t n ⟨events, h⟩ -
    exact ⟨by rw [h.environment], fun _ _ => True.intro⟩
  reported := by
    rintro s t e ⟨events, h⟩ he
    exact ⟨_, h.reported fun line hline => by cases he <;> cases hline⟩
  bound := by
    rintro s t n v ⟨events, h⟩ - -
    have hreported := h.reported (e := .bound n v) fun line hline => by cases hline
    exact ⟨_, hreported.define n v⟩
  declarations := by
    rintro s t ⟨events, h⟩
    exact h.declarations
  procedure _ _ _ _ := True.intro
  counted := by
    rintro s t ⟨events, h⟩
    exact ⟨events, h.withDeclarations _⟩

theorem printLine_fitting (limit : Nat) (line : String) :
    (fitting start room).Runs (fun _ _ => True) (Run.printLine ⟨limit, true⟩ line)
      (Run.printLine ⟨limit, true⟩ line) := by
  rintro s t ⟨events, h⟩
  have hfree : t.output.fault? line = none := by
    rw [Output.fault?, h.unlimited]
    rfl
  have hsize : (echoes (events ++ [.printed line])).size =
      (echoes events).size + (Output.bytesOfLine line).size := by
    rw [echoes_append, echoes_singleton, ByteArray.size_append, Event.echo_printed]
  have hfits := h.fits
  rw [Run.printLine_apply, Run.printLine_apply, hfree, Output.fault?, h.bounded,
    Sink.fault?_bounded]
  by_cases hline : (echoes (events ++ [.printed line])).size ≤ room
  · rw [if_pos rfl, if_pos rfl, if_pos (by omega)]
    exact .returned True.intro ⟨_, h.writeLine hline⟩
  · rw [if_pos rfl, if_pos rfl, if_neg (by omega)]
    exact .cut (h.truncated (Nat.lt_of_not_le hline))

theorem fitting_laws (start : State) (room limit : Nat) :
    SameLaws (fun s t => ∃ events, State.Fits start room events s t) (fun _ => True)
      (fun _ => True) (fun e f => e = f) (State.Truncated start room) ⟨limit, true⟩
      ⟨limit, true⟩ := by
  refine fitting_steps.sameLaws (fun h hu => ?_) (fun _ => rfl) (fun _ => rfl)
    (fun _ => fitting_steps.evaluateAtom (fun _ => rfl) True.intro) (printLine_fitting limit)
  obtain ⟨more, hmore⟩ := h.continued
  obtain ⟨rest, hrest⟩ := hu.journal
  exact ⟨h.full, h.last, more ++ rest, by rw [hrest, hmore, Array.append_assoc]⟩

theorem runProgram_fitting (start : State) (room limit : Nat) (tree : Sexp) :
    (fitting start room).Runs (fun v w => True ∧ v = w) (runProgram ⟨limit, true⟩ tree)
      (runProgram ⟨limit, true⟩ tree) :=
  (fitting_laws start room limit).runProgram fitting_steps rfl rfl True.intro

end Fitting

end Simulation

/-! ## Sessions -/

namespace Session

/-- A run over a sink with room for all that is written without a limit. -/
structure SameRun (free tight : Except Fault Value × Session) : Prop where
  result : tight.1 = free.1
  environment : tight.2.environment = free.2.environment
  journal : tight.2.state.journal = free.2.state.journal
  written : tight.2.state.output.written = free.2.state.output.written

/-- A run from `start` that was stopped by the line that exceeds `room`, beside the run without a
limit, which writes `out` and goes on with `more`. -/
structure Cut (start : Session) (room : Nat) (out : ByteArray)
    (free tight : Except Fault Value × Session) : Prop where
  result : tight.1 = .error (.output "sink is full")
  written : tight.2.state.output.written = start.state.output.written ++ out.extract 0 room
  events : ∃ events line more,
    tight.2.state.journal.toList = start.state.journal.toList ++ (events ++ [.printed line]) ∧
    free.2.state.journal.toList =
      start.state.journal.toList ++ (events ++ [.printed line] ++ more) ∧
    (echoes events).size ≤ room ∧ room < (echoes (events ++ [.printed line])).size ∧
    tight.2.environment = start.environment.extended (bindings events) ∧
    free.2.environment = start.environment.extended (bindings events ++ bindings more)

/-- Runs that go together end together, or the first one is cut. -/
theorem run_fitting {s t : Session} {start : State} {room : Nat} {x y : Run Value}
    (h : (Simulation.fitting start room).Runs (fun v w => True ∧ v = w) x y)
    (hst : ∃ events, State.Fits start room events s.state t.state) :
    (∃ events, State.Fits start room events (s.run x).2.state (t.run y).2.state ∧
        (s.run x).1 = (t.run y).1) ∨
      ∃ e, State.Truncated start room e (s.run x).2.state (t.run y).2.state ∧
        (s.run x).1 = .error e := by
  have key := h.answered hst
  generalize s.run x = r at key ⊢
  generalize t.run y = q at key ⊢
  cases key with
  | returned hvw hst =>
    obtain ⟨-, rfl⟩ := hvw
    obtain ⟨events, hst⟩ := hst
    exact .inl ⟨events, hst, rfl⟩
  | failed hef hst =>
    obtain rfl := hef
    obtain ⟨events, hst⟩ := hst
    exact .inl ⟨events, hst, rfl⟩
  | cut h => exact .inr ⟨_, h, rfl⟩

variable {s : Session} {room : Nat} {free tight : Except Fault Value × Session}
  {written written' : List Event}
  (hfree : State.Recorded true (s.withOutput true .unlimited).state written free.2.state)
  (htight : State.Recorded true (s.withOutput true (.bounded room)).state written' tight.2.state)

include hfree in
theorem written_unlimited :
    free.2.state.output.written = s.state.output.written ++ echoes written := by
  rw [hfree.output, if_pos rfl, Output.after_eq .unlimited]
  rfl

include htight in
theorem written_bounded :
    tight.2.state.output.written = s.state.output.written ++ (echoes written').extract 0 room := by
  rw [htight.output, if_pos rfl, Output.after_eq (.bounded room)]
  rfl

include hfree htight in
/-- Where all lines fit, all are written. -/
theorem sameRun_of_fits {events : List Event}
    (h : State.Fits s.state room events tight.2.state free.2.state) (hresult : tight.1 = free.1) :
    (echoes written).size ≤ room ∧ SameRun free tight := by
  have hevents : events = written := by
    have hjournal : free.2.state.journal.toList = _ := hfree.journal
    rw [h.journal, h.since] at hjournal
    exact List.append_cancel_left hjournal
  have hevents' : written' = written := by
    have hjournal : tight.2.state.journal.toList = _ := htight.journal
    rw [h.since, hevents] at hjournal
    exact (List.append_cancel_left hjournal).symm
  subst hevents hevents'
  refine ⟨h.fits, hresult, h.environment.symm, h.journal.symm, ?_⟩
  have hall : (echoes written').extract 0 room = echoes written' := by
    rw [← Nat.max_eq_left h.fits, ByteArray.extract_zero_max_size]
  rw [written_bounded htight, written_unlimited hfree, hall]

include hfree htight in
/-- The first line that does not fit is written in part, and is the last. -/
theorem cut_of_truncated {e : Fault}
    (h : State.Truncated s.state room e tight.2.state free.2.state) (hresult : tight.1 = .error e) :
    room < (echoes written).size ∧ Cut s room (echoes written) free tight := by
  obtain ⟨events, line, hlast, hfits, hexceeds⟩ := h.last
  obtain ⟨more, hmore⟩ := h.continued
  have hjournal : free.2.state.journal.toList =
      s.state.journal.toList ++ (events ++ [.printed line] ++ more.toList) := by
    rw [hmore, Array.toList_append, hlast, List.append_assoc]
  have hwritten : written = events ++ [.printed line] ++ more.toList :=
    List.append_cancel_left (hfree.journal.symm.trans hjournal)
  have hwritten' : written' = events ++ [.printed line] :=
    List.append_cancel_left (htight.journal.symm.trans hlast)
  have hsplit : echoes written = echoes written' ++ echoes more.toList := by
    rw [hwritten, hwritten', ← echoes_append]
  have hfull : room < (echoes written').size := hwritten' ▸ hexceeds
  have hsize : room < (echoes written).size := by
    rw [hsplit, ByteArray.size_append]
    omega
  have htaken : (echoes written').extract 0 room = (echoes written).extract 0 room := by
    rw [hsplit, ByteArray.extract_append, Nat.sub_eq_zero_of_le (Nat.le_of_lt hfull),
      Nat.zero_sub, ByteArray.extract_same, ByteArray.append_empty]
  refine ⟨hsize, ?_, ?_, events, line, more.toList, hlast, hjournal, hfits, hexceeds, ?_, ?_⟩
  · rw [hresult, h.full]
  · rw [written_bounded htight, htaken]
  · have henvironment := htight.environment
    rw [hwritten', bindings_append] at henvironment
    exact henvironment.trans (congrArg _ (List.append_nil _))
  · have henvironment := hfree.environment
    rw [hwritten, bindings_append, bindings_append] at henvironment
    exact henvironment.trans (congrArg (fun bs => s.environment.extended (bs ++ _))
      (List.append_nil _))

/-- **A sink that fills up truncates the output and stops the program**, and nothing else. If `out`,
what a program would write to a sink without a limit, has room, the run is the same one. Otherwise
it fails, after exactly the first bytes of `out`, at the line that exceeds the room, with what has
been bound by then. -/
theorem evaluateText_capacity (s : Session) (source : String) (room : Nat) :
    let free := (s.withOutput true .unlimited).evaluateText source
    let tight := (s.withOutput true (.bounded room)).evaluateText source
    ∃ out, free.2.state.output.written = s.state.output.written ++ out ∧
      (out.size ≤ room → SameRun free tight) ∧ (room < out.size → Cut s room out free tight) := by
  intro free tight
  cases hparse : parse source with
  | error fault =>
    have hfree : free = (.error (.unreadable fault), s.withOutput true .unlimited) := by
      change evaluateText _ _ = _
      rw [evaluateText, hparse]
    have htight : tight = (.error (.unreadable fault), s.withOutput true (.bounded room)) := by
      change evaluateText _ _ = _
      rw [evaluateText, hparse]
    rw [hfree, htight]
    exact ⟨.empty, ByteArray.append_empty.symm, fun _ => ⟨rfl, rfl, rfl, rfl⟩,
      fun h => absurd h (Nat.not_lt_zero room)⟩
  | ok tree =>
    have hfree : free = _ := evaluateText_of_parse hparse _
    have htight : tight = _ := evaluateText_of_parse hparse _
    have hrecorded := fun start => runProgram_recorded ⟨s.config.maxDepth, true⟩ start tree
    obtain ⟨written, hwritten⟩ := hrecorded (s.withOutput true .unlimited).state
    obtain ⟨written', hwritten'⟩ := hrecorded (s.withOutput true (.bounded room)).state
    rw [← state_run (s.withOutput true .unlimited)] at hwritten
    rw [← state_run (s.withOutput true (.bounded room))] at hwritten'
    have hstart : State.Fits s.state room [] (s.withOutput true (.bounded room)).state
        (s.withOutput true .unlimited).state :=
      ⟨rfl, rfl, rfl, (List.append_nil _).symm, Nat.zero_le room, rfl, rfl⟩
    have key := run_fitting (Simulation.runProgram_fitting s.state room s.config.maxDepth tree)
      ⟨[], hstart⟩
    rw [hfree, htight]
    refine ⟨echoes written, written_unlimited hwritten, ?_⟩
    rcases key with ⟨events, hfits, hresult⟩ | ⟨e, htruncated, hresult⟩
    · obtain ⟨hsize, hsame⟩ := sameRun_of_fits hwritten hwritten' hfits hresult
      exact ⟨fun _ => hsame, fun h => absurd hsize (Nat.not_le_of_lt h)⟩
    · obtain ⟨hsize, hcut⟩ := cut_of_truncated hwritten hwritten' htruncated hresult
      exact ⟨fun h => absurd hsize (Nat.not_lt_of_le h), fun _ => hcut⟩

end Session

end MiniLisp
