import BlockLang.Expr

/-!
# Frames

Names are bound in frames. Every frame but the outermost one lies inside another
frame, and a name that a frame does not bind is looked up further out. Frames are
shared by all expressions that are evaluated in them, so they live in a store and
are referred to by their number. The store also keeps the frame that each lambda
has captured, which is set once, and the next label for a new node.
-/

namespace BlockLang

/-- The number of a frame, counted from zero in order of creation. -/
abbrev FrameId := Nat

/-- A frame: the frame around it and the names it binds, each once. -/
structure Frame where
  outer : Option FrameId
  bindings : List (Text × Node)

namespace Frame

/-- Bindings with one name bound anew, in its place if it was bound before. -/
def rebind (x : Text) (v : Node) : List (Text × Node) → List (Text × Node)
  | [] => [(x, v)]
  | (y, w) :: rest => if y == x then (x, v) :: rest else (y, w) :: rebind x v rest

/-- The value of a name in this frame alone. -/
def get? (f : Frame) (x : Text) : Option Node :=
  f.bindings.lookup x

/-- A frame with one name bound to a value. -/
def define (f : Frame) (x : Text) (v : Node) : Frame :=
  { f with bindings := rebind x v f.bindings }

/-- A frame without a name. -/
def erase (f : Frame) (x : Text) : Frame :=
  { f with bindings := f.bindings.filter (·.1 != x) }

/-- The names that a frame binds, in byte order. -/
def names (f : Frame) : List Text :=
  Text.sort (f.bindings.map (·.1))

end Frame

/-- All frames, the captured frames of lambdas and the next label. -/
structure Store where
  frames : Array Frame
  captures : List (Label × FrameId)
  nextLabel : Label

namespace Store

/-- A store without frames. -/
def empty : Store := ⟨#[], [], 0⟩

/-- A store with a new frame that binds nothing, and its number. -/
def newFrame (s : Store) (outer : Option FrameId) : FrameId × Store :=
  (s.frames.size, { s with frames := s.frames.push ⟨outer, []⟩ })

/-- The result of the nearest frame, from frame `id` outward, for which `find`
has one. A frame is always younger than the one around it. -/
def nearest? {β : Type} (s : Store) (find : Frame → Option β) (id : FrameId) :
    Option (FrameId × β) :=
  match s.frames[id]? with
  | none => none
  | some f =>
    match find f with
    | some b => some (id, b)
    | none =>
      match f.outer with
      | none => none
      | some outer => if outer < id then nearest? s find outer else none
termination_by id

/-- The value of a name seen from a frame. -/
def get? (s : Store) (id : FrameId) (x : Text) : Option Node :=
  (s.nearest? (·.get? x) id).map (·.2)

/-- The value of a name in one frame alone. -/
def getLocal? (s : Store) (id : FrameId) (x : Text) : Option Node :=
  (s.frames[id]?).bind (·.get? x)

/-- The nearest frame that binds a name. -/
def findBinding? (s : Store) (id : FrameId) (x : Text) : Option FrameId :=
  (s.nearest? (·.get? x) id).map (·.1)

/-- The nearest frame in which a name is still bound to the placeholder. -/
def findPlaceholder? (s : Store) (id : FrameId) (x : Text) : Option FrameId :=
  (s.nearest? (fun f => (f.get? x).filter Expr.isPlaceholder) id).map (·.1)

/-- Binds a name in a frame. -/
def define (s : Store) (id : FrameId) (x : Text) (v : Node) : Store :=
  { s with frames := s.frames.modify id (·.define x v) }

/-- Reserves a name in a frame for a definition to come. -/
def declare (s : Store) (id : FrameId) (x : Text) : Store :=
  s.define id x .placeholder

/-- Takes a name out of a frame. -/
def erase (s : Store) (id : FrameId) (x : Text) : Store :=
  { s with frames := s.frames.modify id (·.erase x) }

/-- The names bound in one frame. -/
def names (s : Store) (id : FrameId) : List Text :=
  ((s.frames[id]?).map Frame.names).getD []

/-- The frame captured by the lambda with a label. -/
def captured? (s : Store) (label : Label) : Option FrameId :=
  s.captures.lookup label

/-- Records the captured frame of a lambda. -/
def capture (s : Store) (label : Label) (id : FrameId) : Store :=
  { s with captures := (label, id) :: s.captures }

/-- A new list node. -/
def newList (s : Store) (elements : List Node) : Node × Store :=
  (.list s.nextLabel elements, { s with nextLabel := s.nextLabel + 1 })

end Store

end BlockLang
