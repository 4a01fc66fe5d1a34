import TypedModule.Json.Quoted

/-!
# Declarations

The declarations give the wrapped code its public shape. They stand in named slots: a fixed
library of types, the statement that renames the error class, the parse function with its
signature, the exported error class and, on request, the exported tracer. A slot knows its
lines and the name that it exports, if any. The chunks are the slots in order, with newlines
between them.
-/

namespace TypedModule

structure Slot where
  name : String
  lines : List String
  exported : Option String := none

def Slot.render (s : Slot) : String := "\n".intercalate s.lines

/-- The lines of a declaration with a body of members. -/
def block (head : String) (members : List String) : List String :=
  (head ++ " \x7b") :: members.map ("  " ++ ·) ++ ["\x7d"]

def interfaceSlot (name : String) (members : List String) : Slot where
  name := name
  lines := block ("export interface " ++ name) members
  exported := some name

def aliasSlot (name type : String) : Slot where
  name := name
  lines := ["export type " ++ name ++ " = " ++ type ++ ";"]
  exported := some name

/-- The name that the wrapped code is bound to. -/
def parserBinding : String := "peggyParser"

/-- Opens the holder of the wrapped code and binds the expression that follows. -/
def holderLead : String :=
  "const " ++ parserBinding ++
    ": \x7bparse: any, SyntaxError: any, DefaultTracer?: any\x7d = "

def expectationVariants : List String :=
  ["LiteralExpectation", "ClassExpectation", "AnyExpectation", "EndExpectation",
    "OtherExpectation"]

def librarySlots : List Slot := [
  interfaceSlot "FilePosition" ["offset: number;", "line: number;", "column: number;"],
  interfaceSlot "FileRange" ["start: FilePosition;", "end: FilePosition;", "source: string;"],
  interfaceSlot "LiteralExpectation"
    ["type: \"literal\";", "text: string;", "ignoreCase: boolean;"],
  { name := "ClassParts"
    lines := ["export interface ClassParts extends Array<string | ClassParts> \x7b\x7d"]
    exported := some "ClassParts" },
  interfaceSlot "ClassExpectation"
    ["type: \"class\";", "parts: ClassParts;", "inverted: boolean;", "ignoreCase: boolean;"],
  interfaceSlot "AnyExpectation" ["type: \"any\";"],
  interfaceSlot "EndExpectation" ["type: \"end\";"],
  interfaceSlot "OtherExpectation" ["type: \"other\";", "description: string;"],
  aliasSlot "Expectation" (" | ".intercalate expectationVariants),
  { name := "_PeggySyntaxError"
    lines := block "declare class _PeggySyntaxError extends Error" [
      "public static buildMessage(expected: Expectation[], found: string | null): string;",
      "public message: string;",
      "public expected: Expectation[];",
      "public found: string | null;",
      "public location: FileRange;",
      "public name: string;",
      "constructor(message: string, expected: Expectation[], found: string | null, " ++
        "location: FileRange);",
      "format(sources: \x7b",
      "  grammarSource?: string;",
      "  text: string;",
      "\x7d[]): string;"] },
  interfaceSlot "TraceEvent"
    ["type: string;", "rule: string;", "result?: unknown;", "location: FileRange;"],
  interfaceSlot "ParserTracer" ["trace(event: TraceEvent): void;"],
  { name := "_DefaultTracer"
    lines := block "declare class _DefaultTracer implements ParserTracer"
      ["private indentLevel: number;", "public trace(event: TraceEvent): void;"] }]

def signatureSlots : List Slot := [
  interfaceSlot "ParseOptions"
    ["filename?: string;", "startRule?: string;", "tracer?: ParserTracer;",
      "[key: string]: unknown;"],
  aliasSlot "ParseFunction" "(input: string, options?: ParseOptions) => any",
  { name := "parse"
    lines := ["export const parse: ParseFunction = " ++ parserBinding ++ ".parse;"]
    exported := some "parse" }]

/-- What the declarations depend on. The name is not checked here. -/
structure Declarations where
  errorName : String
  trace : Bool

namespace Declarations

variable (d : Declarations)

def renameSlot : Slot where
  name := "rename"
  lines := [parserBinding ++ ".SyntaxError.prototype.name = " ++
    Json.quoted .ascii d.errorName ++ ";"]

def errorSlot : Slot where
  name := "export_error"
  lines := ["export const " ++ d.errorName ++ " = " ++ parserBinding ++
    ".SyntaxError as typeof _PeggySyntaxError;"]
  exported := some d.errorName

def tracerSlot : Slot where
  name := "export_tracer"
  lines := ["export const DefaultTracer = " ++ parserBinding ++
    ".DefaultTracer as typeof _DefaultTracer;"]
  exported := some "DefaultTracer"

def slots : List Slot :=
  librarySlots ++ d.renameSlot :: signatureSlots ++ d.errorSlot ::
    (if d.trace then [tracerSlot] else [])

def slotNames : List String := d.slots.map Slot.name

def render? (name : String) : Option String :=
  (d.slots.find? fun s => s.name == name).map Slot.render

def exportedNames : List String := d.slots.filterMap Slot.exported

def chunks : List String :=
  ["\n" ++ "\n\n".intercalate (librarySlots.map Slot.render) ++ "\n\n",
    d.renameSlot.render ++ "\n",
    "\n" ++ "\n".intercalate (signatureSlots.map Slot.render) ++ "\n",
    "\n" ++ d.errorSlot.render ++ "\n"] ++
    (if d.trace then ["\n" ++ tracerSlot.render ++ "\n"] else [])

end Declarations

end TypedModule
