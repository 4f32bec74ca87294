import X64Backend.Tree.Resolve

/-!
The sample programs that the command line compiles.  Each comes with a line that says what it shows;
its helper functions can be marked for expansion.
-/

namespace X64Backend

open X64Backend.Tree.Sketch

structure Sample where
  name : String
  about : String
  /-- The program, whose helpers are marked for expansion or not. -/
  sketch : (inline : Bool) → Tree.Sketch.Program

namespace Sample

def int (value : Int) : Expr := .intLit value none

def bin (op : String) (left right : Expr) : Expr := .binary op left right none

/-- A variable of type `int` that holds its own value. -/
def intVar (name : String) : Var := ⟨name, "int", false⟩

def helperMods (inline : Bool) : List String := if inline then ["inline"] else []

/-- A function without parameters and locals that returns an `int`. -/
def fn (name : String) (body : List Stmt) : Function :=
  { key := none
    name
    owner := "Program"
    returnType := "int"
    params := []
    locals := []
    mods := []
    external := false
    body }

/-- A program without types of its own that starts with `Main`. -/
def programOf (classes : List Tree.Sketch.Class) (functions : List Function) :
    Tree.Sketch.Program :=
  { entry := "Main", types := [], classes, functions }

/-- Recursion. -/
def fact : Sample where
  name := "fact"
  about := "recursive factorial of 10"
  sketch inline :=
    let n : Expr := .var "n"
    programOf []
      [fn "Main" [.ret (.call "Program.fact" [int 10])],
        { fn "fact"
            [.ite (bin "<=" n (int 1)) [.ret (int 1)] .absent,
              .ret (bin "*" n (.call "Program.fact" [bin "-" n (int 1)]))] with
          params := [intVar "n"], mods := helperMods inline }]

def rectangle (inline : Bool) : Tree.Sketch.Class :=
  let this : Expr := .var "this"
  { name := "Rect"
    fields := [("w", "int"), ("h", "int")]
    methods :=
      [{ fn "area" [.ret (bin "*" (.field this "w") (.field this "h"))] with
          mods := ["virtual"] },
        { fn "ctor"
            [.assign (.field this "w") (.var "w"), .assign (.field this "h") (.var "h")] with
          params := [intVar "w", intVar "h"], returnType := "void", mods := helperMods inline }]
    ctor := some "Rect.ctor" }

/-- Objects. -/
def shapes : Sample where
  name := "shapes"
  about := "objects with a constructor and virtual area()"
  sketch inline :=
    let area (object : String) : Expr := .method (.var object) "Rect.area" []
    programOf [rectangle inline]
      [{ fn "Main"
            [.assign (.var "a") (.new "Rect" [int 3, int 4]),
              .assign (.var "b") (.new "Rect" [int 5, int 6]),
              .ret (bin "+" (area "a") (area "b"))] with
          locals := [⟨"a", "Rect", false⟩, ⟨"b", "Rect", false⟩] }]

/-- Inline assembly. -/
def asm : Sample where
  name := "asm"
  about := "inline assembly blocks reading and writing locals"
  sketch inline :=
    programOf []
      [{ fn "Main"
            [.assign (.var "x") (int 6),
              .assign (.var "y") (int 7),
              .expr (.asm "mul" "\x7b imul $x, $y; \x7d" "void" ["x", "y"]),
              .expr (.call "Program.double" [.var "x"]),
              .ret (.asm "sum" "\x7b alloc t; mov t, $x; add t, 2; return t; \x7d" "int"
                ["x"])] with
          locals := [intVar "x", intVar "y"] },
        { fn "double" [.expr (.asm "double" "\x7b shl $v, 1; \x7d" "void" ["v"])] with
          params := [⟨"v", "int", true⟩], returnType := "void", mods := helperMods inline }]

/-- Loops. -/
def loops : Sample where
  name := "loops"
  about := "while and for loops with break and continue"
  sketch inline :=
    let i : Expr := .var "i"
    let sum : Expr := .var "sum"
    let odd (value : Expr) : Expr := .call "Program.odd" [value]
    programOf []
      [{ fn "Main"
            [.assign sum (int 0),
              .for (.assign i (int 0)) (bin "<" i (int 100)) (.assign i (bin "+" i (int 1)))
                [.ite (bin ">" sum (int 200)) [.break] .absent,
                  .ite (.unary "!" (odd i) none) [.continue] .absent,
                  .assign sum (bin "+" sum i)],
              .while (.and (bin ">" sum (int 100)) (odd sum))
                [.assign sum (bin "-" sum (int 3))],
              .ret sum] with
          locals := [intVar "i", intVar "sum"] },
        { fn "odd" [.ret (bin "==" (bin "&" (.var "n") (int 1)) (int 1))] with
          params := [intVar "n"], returnType := "bool", mods := helperMods inline }]

def mixParams : List String := ["p0", "p1", "p2", "p3", "p4", "p5", "p6", "p7"]

/-- The parameters weighted by powers of two, the first one most. -/
def weighted : List String → Expr
  | [] => int 0
  | first :: rest =>
      rest.foldl (fun sum name => bin "+" (bin "*" sum (int 2)) (.var name)) (.var first)

/-- Arguments on the stack. -/
def args : Sample where
  name := "args"
  about := "a call with eight arguments"
  sketch inline :=
    programOf []
      [fn "Main"
          [.ret (.call "Program.mix" (mixParams.mapIdx fun k _ => int (k + 1)))],
        { fn "mix" [.ret (weighted mixParams)] with
          params := mixParams.map intVar, mods := helperMods inline }]

def all : List Sample := [args, asm, fact, loops, shapes]

def named? (name : String) : Option Sample :=
  all.find? fun sample => sample.name = name

def program (sample : Sample) (inline : Bool) : Except Error Tree.TypedProgram :=
  Tree.TypedProgram.ofSketch (sample.sketch inline)

end Sample

end X64Backend
