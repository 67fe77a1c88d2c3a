-- SUMMARY: Sinks: where printed lines go, and how they can be refused.

/-!
# Sinks

A sink takes printed lines one after the other and may fail to. Its state is its
own: the text gathered so far, or whatever else decides how it goes on.
-/

namespace Wordstack

/-- A sink with states in `σ`. Both actions give the state afterwards and, if they
fail, the reason. -/
structure Sink (σ : Type) where
  write : σ → String → σ × Option String
  flush : σ → σ × Option String

namespace Sink

/-- Gathers everything and never fails. -/
def memory : Sink String where
  write text line := (text ++ line, none)
  flush text := (text, none)

/-- Refuses every line. -/
def unwritable (reason : String) : Sink String where
  write text _ := (text, some reason)
  flush text := (text, none)

/-- Gathers everything and fails at the end. -/
def unflushable (reason : String) : Sink String where
  write text line := (text ++ line, none)
  flush text := (text, some reason)

end Sink

end Wordstack
