import BlockLang.Evaluator

/-!
# The library

The outermost frame binds every procedure and a few constants.
-/

namespace BlockLang

namespace Library

/-- The constants that are bound before any program runs. -/
def constants : List (Text × Node) :=
  [("x", .integer 10), ("v", .integer 5), ("i", .integer 1), ("true", .boolean true),
   ("false", .boolean false)]

/-- The procedures with labels from `next` on. -/
def procedures (next : Label) : List (Text × Node) :=
  Procedure.all.zipIdx.map fun (p, i) => (p.name, .procedure (next + i) p.name true)

/-- Every name of the library, in byte order. -/
def names : List Text :=
  Text.sort ((constants ++ procedures 0).map (·.1))

/-- A new outermost frame with the library. -/
def load (s : State) : FrameId × State :=
  let store := s.store
  let frame : Frame := ⟨none, constants ++ procedures store.nextLabel⟩
  (store.frames.size,
    { s with
      store :=
        { store with
          frames := store.frames.push frame
          nextLabel := store.nextLabel + Procedure.all.length } })

/-- Calls a procedure of the library from a frame with evaluated arguments. -/
def call (settings : Settings) (p : Procedure) (args : List Node) (caller : FrameId) (s : State) :
    Except Fault Node × State :=
  let called := Evaluation.withCaller caller (Evaluator.callProcedure settings p true args) s
  Evaluation.ended (Running.run (Evaluator.rules settings) settings.limit ⟨s.depth, called, []⟩)

end Library

end BlockLang
