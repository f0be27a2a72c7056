import MiniLisp.Text.Cut

/-!
# Output

Printed lines go to a sink of the host, which does with each of them what it likes: it may take the
line, or only a part of it, and it may fail, now or later, for a reason of its own. The output keeps
the bytes that the sink took.
-/

namespace MiniLisp

/-- What becomes of a line that is offered to a sink. -/
structure Reception where
  /-- The bytes that the sink takes. -/
  taken : ByteArray
  /-- What it says if it fails. -/
  fault? : Option String

/-- Where printed lines go: what becomes of the next line, given the bytes of all lines that have
been offered before, the first one first. -/
structure Sink where
  receive : List ByteArray → ByteArray → Reception

namespace Sink

/-- The part of some bytes that the sink takes. -/
def take (bytes : ByteArray) (s : Sink) : ByteArray :=
  (s.receive [] bytes).taken

/-- The sink after some bytes were offered to it. -/
def after (bytes : ByteArray) (s : Sink) : Sink where
  receive past line := s.receive (bytes :: past) line

/-- What goes wrong when some bytes are offered to the sink. -/
def fault? (bytes : ByteArray) (s : Sink) : Option String :=
  (s.receive [] bytes).fault?

/-- Takes everything. -/
def unlimited : Sink where
  receive _ line := ⟨line, none⟩

/-- Takes nothing. -/
def refusing : Sink where
  receive _ _ := ⟨.empty, some "sink is closed"⟩

/-- Takes every line and then fails to pass it on. -/
def unflushable : Sink where
  receive _ line := ⟨line, some "flush failed"⟩

/-- Takes this many bytes, the last of them from a line that does not fit if there is one. -/
def bounded (room : Nat) : Sink where
  receive past line :=
    let left := past.foldl (fun left earlier => left - earlier.size) room
    ⟨line.extract 0 left, if line.size ≤ left then none else some "sink is full"⟩

theorem take_bounded (room : Nat) (bytes : ByteArray) :
    take bytes (bounded room) = bytes.extract 0 room := rfl

theorem fault?_bounded (room : Nat) (bytes : ByteArray) :
    fault? bytes (bounded room) = if bytes.size ≤ room then none else some "sink is full" := rfl

theorem after_bounded (room : Nat) (bytes : ByteArray) :
    after bytes (bounded room) = bounded (room - bytes.size) := rfl

end Sink

/-- A sink and the bytes it has taken. -/
structure Output where
  sink : Sink
  written : ByteArray

namespace Output

/-- The UTF-8 form of a line, with its line feed. -/
def bytesOfLine (line : String) : ByteArray :=
  (line.push '\n').toUTF8

/-- Nothing written yet. -/
def start (sink : Sink) : Output := ⟨sink, .empty⟩

/-- Writes a line, as far as the sink takes it. -/
def writeLine (o : Output) (line : String) : Output :=
  let bytes := bytesOfLine line
  ⟨o.sink.after bytes, o.written ++ o.sink.take bytes⟩

/-- What goes wrong when a line is written. -/
def fault? (o : Output) (line : String) : Option String :=
  o.sink.fault? (bytesOfLine line)

/-- What has been written, as text. -/
def text (o : Output) : String :=
  textOfCut o.written

end Output

end MiniLisp
