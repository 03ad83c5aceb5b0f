import FileWebServer.Libc

namespace FileWebServer

def weekdayName (wday : Int) : Bytes :=
  match wday.tmod 7 with
  | 0 => bytes "Sun"
  | 1 => bytes "Mon"
  | 2 => bytes "Tue"
  | 3 => bytes "Wed"
  | 4 => bytes "Thu"
  | 5 => bytes "Fri"
  | _ => bytes "Sat"

def monthName (mon : Int) : Bytes :=
  match mon.tmod 12 with
  | 0 => bytes "Jan"
  | 1 => bytes "Feb"
  | 2 => bytes "Mar"
  | 3 => bytes "Apr"
  | 4 => bytes "May"
  | 5 => bytes "Jun"
  | 6 => bytes "Jul"
  | 7 => bytes "Aug"
  | 8 => bytes "Sep"
  | 9 => bytes "Oct"
  | 10 => bytes "Nov"
  | _ => bytes "Dec"

/-- A Unix time stamp as an RFC 2822 date in GMT. -/
def formatTime (t : Int) : Bytes :=
  let gmt := gmtimeR t
  weekdayName gmt.wday ++ bytes ", " ++ zeroPadded 2 gmt.mday ++ bytes " " ++
    monthName gmt.mon ++ bytes " " ++ zeroPadded 4 (gmt.year + 1900) ++ bytes " " ++
    zeroPadded 2 gmt.hour ++ bytes ":" ++ zeroPadded 2 gmt.min ++ bytes ":" ++
    zeroPadded 2 gmt.sec ++ bytes " GMT"

inductive Status where
  | ok
  | partialContent
  | notModified
  | badRequest
  | forbidden
  | notFound
  | methodNotAllowed
  | rangeNotSatisfiable
  | internalError
  | notImplemented
  deriving DecidableEq, Repr

def Status.code : Status → Nat
  | .ok => 200
  | .partialContent => 206
  | .notModified => 304
  | .badRequest => 400
  | .forbidden => 403
  | .notFound => 404
  | .methodNotAllowed => 405
  | .rangeNotSatisfiable => 416
  | .internalError => 500
  | .notImplemented => 501

def Status.reason : Status → Bytes
  | .ok => bytes "OK"
  | .partialContent => bytes "Partial Content"
  | .notModified => bytes "Not Modified"
  | .badRequest => bytes "Bad Request"
  | .forbidden => bytes "Forbidden"
  | .notFound => bytes "Not Found"
  | .methodNotAllowed => bytes "Method Not Allowed"
  | .rangeNotSatisfiable => bytes "Range Not Satisfiable"
  | .internalError => bytes "Internal Server Error"
  | .notImplemented => bytes "Not Implemented"

structure HttpResponse where
  status : Status := .ok
  headers : List (Bytes × Bytes) := []
  body : Bytes := []
  contentType : Bytes := []
  contentLength : Nat := 0
  hasContentLength : Bool := false
  acceptRanges : Bool := false
  keepAlive : Bool := true
  hasLastModified : Bool := false
  lastModified : Int := 0
  deriving DecidableEq, Repr

namespace HttpResponse

def setHeader (r : HttpResponse) (name value : Bytes) : HttpResponse :=
  { r with headers := r.headers ++ [(name, value)] }

/-- The length is a `uint64_t`. -/
def setContentLength (r : HttpResponse) (len : Int) : HttpResponse :=
  { r with contentLength := (len % 2 ^ 64).toNat, hasContentLength := true }

def setLastModified (r : HttpResponse) (tm : Int) : HttpResponse :=
  { r with lastModified := tm, hasLastModified := true }

def hasBody (r : HttpResponse) : Bool := !r.body.isEmpty

def headerLine (name value : Bytes) : Bytes := name ++ bytes ": " ++ value ++ crlf

/-- The header block, with the time of day that `std::time` gives. -/
def buildHeaders (r : HttpResponse) (time : Int) : Bytes :=
  bytes "HTTP/1.1 " ++ decimal r.status.code ++ bytes " " ++ r.status.reason ++ crlf ++
    headerLine (bytes "Date") (formatTime time) ++
    (if r.status ≠ .notModified ∧ r.contentType ≠ [] then
      headerLine (bytes "Content-Type") r.contentType else []) ++
    (if r.status ≠ .notModified ∧ r.hasContentLength then
      headerLine (bytes "Content-Length") (decimal r.contentLength) else []) ++
    (if r.hasLastModified then
      headerLine (bytes "Last-Modified") (formatTime r.lastModified) else []) ++
    (if r.acceptRanges then headerLine (bytes "Accept-Ranges") (bytes "bytes") else []) ++
    headerLine (bytes "Connection")
      (if r.keepAlive then bytes "keep-alive" else bytes "close") ++
    r.headers.flatMap (fun h => headerLine h.1 h.2) ++ crlf

def reset : HttpResponse := {}

def errorBody (s : Status) : Bytes :=
  let title := decimal s.code ++ bytes " " ++ s.reason
  bytes "<!DOCTYPE html><html><head><meta charset=\"utf-8\"><title>" ++ title ++
    bytes "</title></head><body><h1>" ++ title ++ bytes "</h1></body></html>"

end HttpResponse

end FileWebServer
