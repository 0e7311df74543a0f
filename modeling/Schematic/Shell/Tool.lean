import Schematic.Files.Tree
import Schematic.Text.Blank
import Schematic.Text.Utf8

/-! The tools that scripts call: each is a function of its arguments, its input and the files. -/

namespace Schematic.Shell

/-- What a tool works on. -/
structure Task where
  arguments : List String
  input : ByteArray
  files : FileTree
  home : Location

/-- What a tool does. -/
structure Deed where
  /-- How many bytes of the input were read. -/
  taken : Nat := 0
  output : ByteArray := .empty
  errors : ByteArray := .empty
  code : Nat := 0
  files : FileTree

namespace Task

/-- Nothing is done, and the files stay. -/
def idle (t : Task) : Deed := { files := t.files }

def fail (t : Task) (code : Nat) (message : String) : Deed :=
  { files := t.files, code, errors := message.toUTF8 }

/-- What a tool says about a file that it can not use. -/
def complain (tool path : String) (e : SystemError) : String :=
  let text := ((e.message.toList.takeWhile (· ≠ '(')))
  tool ++ ": " ++ path ++ ": " ++ String.ofList (Text.dropEndWhile (· = ' ') text) ++ "\n"

/-- The options in front of the other arguments. -/
def split (t : Task) : List String × List String :=
  t.arguments.span fun a => a.length > 1 && a.toList.head? = some '-'

end Task

/-! ### Bytes -/

/-- The number of bytes up to the end of line number `n`. -/
def lengthOfLines (n : Nat) (bytes : List UInt8) : Nat :=
  match n, bytes with
  | 0, _ => 0
  | _, [] => 0
  | n + 1, b :: r => if b = 10 then 1 + lengthOfLines n r else 1 + lengthOfLines (n + 1) r

def countLines (b : ByteArray) : Nat := b.toList.count 10

/-- Pieces between blanks. -/
def countWords (b : ByteArray) : Nat :=
  let blank (x : UInt8) : Bool := x = 32 || (9 ≤ x && x ≤ 13)
  (b.toList.foldl (fun s x =>
    if blank x then (s.1, false) else (if s.2 then s.1 else s.1 + 1, true)) (0, false)).1

/-- Reads the files named, or the input where none is named. -/
def Task.gather (t : Task) (tool : String) (paths : List String) : Deed :=
  let one (d : Deed) (path : String) : Deed :=
    if path = "-" then { d with taken := t.input.size, output := d.output ++ t.input }
    else
      match t.files.read t.home path with
      | .ok b => { d with output := d.output ++ b }
      | .error e => { d with code := 1, errors := d.errors ++ (Task.complain tool path e).toUTF8 }
  (if paths.isEmpty then ["-"] else paths).foldl one t.idle

/-! ### Escapes -/

/-- The bytes of a text in which backslashes stand before letters and octal digits. -/
def unescape : Nat → List Char → List UInt8
  | 0, _ => []
  | fuel + 1, cs =>
    match cs with
    | [] => []
    | '\\' :: c :: r =>
      let plain (b : UInt8) : List UInt8 := b :: unescape fuel r
      match c with
      | 'n' => plain 10
      | 't' => plain 9
      | 'r' => plain 13
      | 'a' => plain 7
      | 'b' => plain 8
      | 'f' => plain 12
      | 'v' => plain 11
      | '\\' => plain 92
      | '"' => plain 34
      | c =>
        let ds := ((c :: r).take 3).takeWhile fun d => '0' ≤ d ∧ d ≤ '7'
        if ds.isEmpty then 92 :: ((String.singleton c).toUTF8.toList ++ unescape fuel r)
        else
          let n := ds.foldl (fun n d => 8 * n + (d.toNat - '0'.toNat)) 0
          n.toUInt8 :: unescape fuel ((c :: r).drop ds.length)
    | c :: r => (String.singleton c).toUTF8.toList ++ unescape fuel r

def unescaped (s : String) : ByteArray := ⟨(unescape (s.length + 1) s.toList).toArray⟩

/-- The texts of arguments with blanks between them, up to `\c`. -/
def echo (arguments : List String) : ByteArray :=
  let (bare, words) := match arguments with
    | "-n" :: r => (true, r)
    | r => (false, r)
  unescaped (" ".intercalate words) ++ (if bare then .empty else "\n".toUTF8)

/-! ### Formats -/

/-- The number at the start of a text. -/
def numberOf (s : String) : Int :=
  let (negative, ds) := match s.toList with
    | '-' :: r => (true, r)
    | '+' :: r => (false, r)
    | r => (false, r)
  let n := (ds.takeWhile Char.isDigit).foldl (fun n d => 10 * n + (d.toNat - '0'.toNat)) 0
  if negative then -(n : Int) else n

/-- A text filled up to some width. -/
def padTo (width : Nat) (left zeros : Bool) (s : String) : String :=
  let gap := String.ofList (List.replicate (width - s.length) (if zeros && !left then '0' else ' '))
  if left then s ++ gap else gap ++ s

/-- Writes one argument the way a letter behind a percent sign asks for. -/
def formatOne (letter : Char) (precision : Option Nat) (argument : String) : Option ByteArray :=
  match letter with
  | 's' =>
    some (match precision with
      | some n => String.ofList (argument.toList.take n)
      | none => argument).toUTF8
  | 'b' => some (unescaped argument)
  | 'd' | 'i' | 'u' => some (toString (numberOf argument)).toUTF8
  | 'x' => some (String.ofList (Nat.toDigits 16 (numberOf argument).toNat)).toUTF8
  | 'o' => some (String.ofList (Nat.toDigits 8 (numberOf argument).toNat)).toUTF8
  | 'c' => some (String.ofList (argument.toList.take 1)).toUTF8
  | _ => none

/-- Writes a format once; gives the arguments that are left. -/
def formatOnce : Nat → List Char → List String → ByteArray × List String
  | 0, _, arguments => (.empty, arguments)
  | fuel + 1, cs, arguments =>
    match cs with
    | [] => (.empty, arguments)
    | '%' :: '%' :: r =>
      let (b, rest) := formatOnce fuel r arguments
      ("%".toUTF8 ++ b, rest)
    | '%' :: r =>
      let flags := r.takeWhile fun c => ['-', '0', '+', ' ', '#'].contains c
      let r := r.drop flags.length
      let width := r.takeWhile Char.isDigit
      let r := r.drop width.length
      let (precision, r) := match r with
        | '.' :: r =>
          let ds := r.takeWhile Char.isDigit
          (some (numberOf (String.ofList ds)).toNat, r.drop ds.length)
        | r => (none, r)
      match r with
      | letter :: r =>
        match formatOne letter precision (arguments.head?.getD "") with
        | some b =>
          let b := match String.fromUTF8? b with
            | some s =>
              (padTo (numberOf (String.ofList width)).toNat (flags.contains '-') (flags.contains '0')
                s).toUTF8
            | none => b
          let (b', rest) := formatOnce fuel r arguments.tail
          (b ++ b', rest)
        | none => (.empty, [])
      | [] => ("%".toUTF8, arguments)
    | '\\' :: c :: r =>
      let ds := ((c :: r).take 3).takeWhile fun d => '0' ≤ d ∧ d ≤ '7'
      let n := if ds.isEmpty then 1 else ds.length
      let (b, rest) := formatOnce fuel ((c :: r).drop n) arguments
      (unescaped (String.ofList ('\\' :: (c :: r).take n)) ++ b, rest)
    | c :: r =>
      let (b, rest) := formatOnce fuel r arguments
      ((String.singleton c).toUTF8 ++ b, rest)

/-- Writes a format again and again as long as arguments are left. -/
def printf (format : String) : Nat → List String → ByteArray
  | 0, _ => .empty
  | fuel + 1, arguments =>
    let (b, rest) := formatOnce (format.length + 1) format.toList arguments
    if rest.isEmpty || rest.length = arguments.length then b else b ++ printf format fuel rest

/-! ### Sets of characters -/

/-- The characters between two characters, ends included. -/
def charRange (a b : Char) : List Char :=
  ((List.range (b.toNat + 1)).filter (a.toNat ≤ ·)).map Char.ofNat

/-- The characters that a set is spelled with. -/
def setChars : Nat → List Char → List Char
  | 0, _ => []
  | fuel + 1, cs =>
    match cs with
    | [] => []
    | '[' :: ':' :: r =>
      let name := String.ofList (r.takeWhile (· ≠ ':'))
      let r := r.drop (name.length + 2)
      let all := match name with
        | "upper" => charRange 'A' 'Z'
        | "lower" => charRange 'a' 'z'
        | "digit" => charRange '0' '9'
        | "alpha" => charRange 'A' 'Z' ++ charRange 'a' 'z'
        | "alnum" => charRange '0' '9' ++ charRange 'A' 'Z' ++ charRange 'a' 'z'
        | "space" => [' ', '\t', '\n', '\x0b', '\x0c', '\r']
        | "blank" => [' ', '\t']
        | _ => []
      all ++ setChars fuel r
    | '\\' :: c :: r =>
      (unescape 3 ['\\', c]).map (fun b => Char.ofNat b.toNat) ++ setChars fuel r
    | a :: '-' :: b :: r => charRange a b ++ setChars fuel r
    | c :: r => c :: setChars fuel r

/-- The bytes of a set. -/
def setBytes (s : String) : List UInt8 :=
  (setChars (s.length + 1) s.toList).flatMap fun c => (String.singleton c).toUTF8.toList

/-- The byte that stands for `b`: the one at the same place in the second set, or its last. -/
def translate (old new : List UInt8) (b : UInt8) : UInt8 :=
  match old.idxOf? b with
  | some i => (new[i]?.or new.getLast?).getD b
  | none => b

/-! ### The tools -/

def Task.cat (t : Task) : Deed :=
  let (options, paths) := t.split
  if options.all (· = "-u") then t.gather "cat" paths
  else t.fail 1 ("cat: invalid option\n")

def Task.wc (t : Task) : Deed :=
  let (options, paths) := t.split
  let d := t.gather "wc" paths
  let b := d.output
  let wants (o : String) : Bool := options.contains o
  let counts := (if wants "-l" || options.isEmpty then [countLines b] else [])
    ++ (if wants "-w" || options.isEmpty then [countWords b] else [])
    ++ (if wants "-c" || options.isEmpty then [b.size] else [])
    ++ (if wants "-m" then [(Text.lossy b).length] else [])
  let width := if counts.length > 1 && paths.isEmpty then 7 else 1
  let shown := " ".intercalate (counts.map fun n => padTo width false false (toString n))
  { d with output := (" ".intercalate (shown :: paths) ++ "\n").toUTF8 }

def Task.tr (t : Task) : Deed :=
  let done (f : List UInt8 → List UInt8) : Deed :=
    { t.idle with taken := t.input.size, output := ⟨(f t.input.toList).toArray⟩ }
  match t.arguments with
  | ["-d", s] => done (·.filter fun b => !(setBytes s).contains b)
  | ["-cd", s] => done (·.filter fun b => (setBytes s).contains b)
  | [a, b] => done (·.map (translate (setBytes a) (setBytes b)))
  | _ => t.fail 1 "tr: missing operand\n"

def Task.head (t : Task) : Deed :=
  let cut (count : ByteArray → Nat) (paths : List String) : Deed :=
    let d := t.gather "head" paths
    let n := count d.output
    { d with output := d.output.extract 0 n, taken := min d.taken (max n (min d.taken 8192)) }
  let bytes (s : String) (paths : List String) : Deed :=
    let n := (numberOf s).toNat
    let d := cut (fun b => min n b.size) paths
    { d with taken := min d.taken n }
  let lines (s : String) (paths : List String) : Deed :=
    cut (fun b => lengthOfLines (numberOf s).toNat b.toList) paths
  match t.arguments with
  | "-c" :: n :: paths => bytes n paths
  | "-n" :: n :: paths => lines n paths
  | option :: paths =>
    match option.toList with
    | '-' :: 'c' :: n => bytes (String.ofList n) paths
    | '-' :: 'n' :: n => lines (String.ofList n) paths
    | '-' :: n => lines (String.ofList n) paths
    | _ => lines "10" (option :: paths)
  | [] => lines "10" []

/-- Changes the files one path after the other. -/
def Task.each (t : Task) (tool : String) (paths : List String)
    (change : FileTree → String → Except SystemError FileTree) : Deed :=
  paths.foldl (fun d path =>
    match change d.files path with
    | .ok files => { d with files }
    | .error e => { d with code := 1, errors := d.errors ++ (Task.complain tool path e).toUTF8 }) t.idle

def Task.tee (t : Task) : Deed :=
  let (options, paths) := t.split
  let append := options.contains "-a"
  let d := t.each "tee" paths fun files path =>
    files.update t.home path fun b => if append then b ++ t.input else t.input
  { d with taken := t.input.size, output := t.input }

def Task.touch (t : Task) : Deed :=
  t.each "touch" t.split.2 fun files path =>
    if files.isDirectory t.home path then .ok files else files.update t.home path id

def Task.mkdir (t : Task) : Deed :=
  let (options, paths) := t.split
  t.each "mkdir" paths fun files path =>
    if options.contains "-p" then files.makeDirectories t.home (path.length + 1) path
    else files.makeDirectory t.home path

def Task.rm (t : Task) : Deed :=
  let (options, paths) := t.split
  let has (c : Char) : Bool := options.any fun o => o.toList.contains c
  t.each "rm" paths fun files path =>
    match files.locate t.home path with
    | .ok (l, .directory) =>
      if has 'r' || has 'R' then .ok ⟨files.entries.filter fun e => !l.isPrefixOf e.1⟩
      else .error .isDirectory
    | .ok (l, _) => .ok (files.erase l)
    | .error e => if has 'f' then .ok files else .error e

/-- Runs a tool that needs no other program. -/
def Task.perform (t : Task) (tool : Tool) : Deed :=
  match tool with
  | .cat => t.cat
  | .wc => t.wc
  | .tr => t.tr
  | .head => t.head
  | .tee => t.tee
  | .touch => t.touch
  | .mkdir => t.mkdir
  | .rm => t.rm
  | .echo => { t.idle with output := echo t.arguments }
  | .printf =>
    match t.arguments with
    | format :: rest => { t.idle with output := printf format (rest.length + 1) rest }
    | [] => t.fail 2 "printf: usage: printf format [arg ...]\n"
  | .no => { t.idle with code := 1 }
  | .sleep | .yes | .shell | .env => t.idle

end Schematic.Shell
