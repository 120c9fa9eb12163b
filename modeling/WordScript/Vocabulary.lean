import WordScript.Machine

/-!
# The vocabulary

The words that every machine knows from the start, bound in the global frame of the default
namespace: the types, the truth values, the control words and the built-in functions.
-/

namespace WordScript

/-- The words that stand for types. -/
def typeWords : List Identifier :=
  [.typeName "int", .typeName "double", .typeName "bool", .typeName "string", .typeName "array",
   .typeName "map"]

/-- The words that stand for truth values. -/
def truthWords : List Identifier :=
  [{ Identifier.bool true with surface := "true" },
   { Identifier.bool false with surface := "false" }]

/-- The words that direct the flow of control. -/
def controlWords : List Identifier :=
  [.control "if" .ifWord, .control "else" .elseWord, .control "loop" .loopWord]

/-- A function that may stand between its operands. -/
def between (word : String) (op : Builtin) : Identifier :=
  .function word "any" true (.builtin op)

/-- A function that stands in front of its operands. -/
def inFront (word : String) (op : Builtin) : Identifier :=
  .function word "void" false (.builtin op)

/-- The words that stand for functions. -/
def functionWords : List Identifier :=
  [between "decas" .declare,
   between "::" .declare,
   between "=" .assign,
   between "+" (.arithmetic .add),
   between "-" (.arithmetic .sub),
   between "*" (.arithmetic .mul),
   between "/" (.arithmetic .div),
   between "+=" (.update .add),
   between "-=" (.update .sub),
   between "*=" (.update .mul),
   between "/=" (.update .div),
   between "==" (.compare .eq),
   between "!=" (.compare .ne),
   between "<" (.compare .lt),
   between ">" (.compare .gt),
   between "<=" (.compare .le),
   between ">=" (.compare .ge),
   between "&&" (.connect .and),
   between "||" (.connect .or),
   between indexWord .index,
   inFront "!" .negate,
   inFront "print" .print,
   inFront "println" .printLine,
   inFront "push" .push,
   inFront "dump" .dump,
   inFront "include" .loadModule]

/-- The whole vocabulary, in the order in which it takes up slots of the arena. -/
def vocabulary : List Identifier :=
  typeWords ++ truthWords ++ controlWords ++ functionWords

/-- No word is in the vocabulary twice. -/
theorem vocabulary_nodup : (vocabulary.map Identifier.surface).Nodup := by
  decide

/-- A store in which the vocabulary is bound, and nothing else. -/
def Store.initial : Store :=
  vocabulary.foldl (fun s i => (s.define i).2) .empty

/-- A machine that knows its vocabulary and writes to the given sink. -/
def Machine.initial (sink : Sink) : Machine :=
  { store := .initial, sink }

end WordScript
