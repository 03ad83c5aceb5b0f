import FileWebServer.Libc

namespace FileWebServer
open Search

inductive Method where
  | get
  | head
  | unknown
  deriving DecidableEq, Repr

structure HttpRequest where
  method : Method := .unknown
  rawMethod : Bytes := []
  path : Bytes := []
  version : Bytes := []
  headers : List (Bytes × Bytes) := []
  deriving DecidableEq, Repr

namespace HttpRequest

def reset : HttpRequest := {}

def methodOf (rawMethod : Bytes) : Method :=
  if rawMethod = bytes "GET" then .get
  else if rawMethod = bytes "HEAD" then .head
  else .unknown

def isBlank (c : UInt8) : Bool := c == space || c == tab

/-- The name and value of one header line: the split is at the first colon followed by a
space and only without one at the first colon. -/
def headerOfLine (line : Bytes) : Option (Bytes × Bytes) :=
  match (find (bytes ": ") line).or (find (bytes ":") line) with
  | none => none
  | some colon =>
    some ((line.take colon).map tolower, (line.drop (colon + 1)).dropWhile isBlank)

/-- The header loop on the part of the header block from `pos` on. It ends at the first line
without a CRLF. Every round consumes two bytes or more, so the fuel is the block's length. -/
def headerLoop : Nat → Bytes → List (Bytes × Bytes)
  | 0, _ => []
  | fuel + 1, rest =>
    if rest = [] then []
    else match find crlf rest with
      | none => []
      | some eol =>
        (headerOfLine (rest.take eol)).toList ++ headerLoop fuel (rest.drop (eol + 2))

/-- Whether the request was accepted, and the fields as far as they were filled in. -/
def parse (raw : Bytes) : Bool × HttpRequest :=
  match find crlfcrlf raw with
  | none => (false, reset)
  | some block =>
    let headerBlock := raw.take block
    match find crlf headerBlock with
    | none => (false, reset)
    | some firstLf =>
      let requestLine := headerBlock.take firstLf
      match find [space] requestLine with
      | none => (false, reset)
      | some sp1 =>
        let rawMethod := requestLine.take sp1
        let req := { reset with rawMethod := rawMethod, method := methodOf rawMethod }
        let rest := requestLine.drop (sp1 + 1)
        match find [space] rest with
        | none => (false, req)
        | some sp2 =>
          (true, { req with
            path := rest.take sp2
            version := rest.drop (sp2 + 1)
            headers := headerLoop headerBlock.length (headerBlock.drop (firstLf + 2)) })

def header (req : HttpRequest) (name : Bytes) : Bytes :=
  match req.headers.find? (fun h => h.1 == name) with
  | some h => h.2
  | none => []

def isKeepAlive (req : HttpRequest) : Bool :=
  let conn := req.header (bytes "connection")
  if req.version = bytes "HTTP/1.1" then conn ≠ bytes "close" else conn = bytes "keep-alive"

/-- One of the digit loops of `parse_range`, in 64-bit arithmetic. -/
def digitLoop (acc : Int) : Bytes → Option Int
  | [] => some acc
  | c :: rest =>
    if c < 48 ∨ 57 < c then none
    else digitLoop (wrap64 (wrap64 (acc * 10) + (c.toNat - 48))) rest

/-- The start and the end that the text of a range asks for. -/
def rangeBounds (fileSize : Int) (start rangeEnd : Bytes) : Option (Int × Int) :=
  if start = [] then
    match digitLoop 0 rangeEnd with
    | none => none
    | some suffix =>
      if suffix ≤ 0 then none
      else some (max (wrap64 (fileSize - suffix)) 0, wrap64 (fileSize - 1))
  else match digitLoop 0 start with
    | none => none
    | some s =>
      if rangeEnd = [] then some (s, wrap64 (fileSize - 1))
      else (digitLoop 0 rangeEnd).map fun e => (s, e)

def parseRange (req : HttpRequest) (fileSize : Int) : Option (Int × Int) :=
  let rangeHdr := req.header (bytes "range")
  if rangeHdr = [] then none
  else if rangeHdr.length < 7 ∨ rangeHdr.take 6 ≠ bytes "bytes=" then none
  else
    let val := rangeHdr.drop 6
    match find (bytes "-") val with
    | none => none
    | some dash =>
      match rangeBounds fileSize (val.take dash) (val.drop (dash + 1)) with
      | none => none
      | some (s, e) =>
        if fileSize ≤ s ∨ e < s then none
        else some (s, if fileSize ≤ e then wrap64 (fileSize - 1) else e)

/-- `strptime` sees the value up to its first NUL. -/
def parseIfModifiedSince (libc : Libc) (req : HttpRequest) : Option Int :=
  let val := req.header (bytes "if-modified-since")
  if val = [] then none
  else (libc.strptime (val.takeWhile (· ≠ 0))).map timegm

end HttpRequest

end FileWebServer
