import FileWebServer.Http.ByteRange
import FileWebServer.Http.Dates
import FileWebServer.Lib.TokenReader

namespace FileWebServer
open TokenReader
set_option autoImplicit true
set_option maxRecDepth 20000

/-- The value and the rest of an optional sign. -/
def signed : Bytes → Int × Bytes
  | 45 :: rest => (-1, rest)
  | 43 :: rest => (1, rest)
  | s => (1, s)

/-- `std::atoi`, which is `strtol` with base 10 cut down to an `int`. -/
def atoi (s : Bytes) : Int :=
  let (sign, digits) := signed (s.dropWhile isspace)
  let value := sign * HttpRequest.number (digits.takeWhile HttpRequest.isDigit)
  (max (-2 ^ 63) (min value (2 ^ 63 - 1))).bmod (2 ^ 32)

theorem atoi_of_digits {sign : Int} {s digits : Bytes}
    (hs : signed (s.dropWhile isspace) = (sign, digits)) (hd : HttpRequest.IsDigits digits)
    (hlo : -2 ^ 31 ≤ sign * HttpRequest.number digits)
    (hhi : sign * HttpRequest.number digits < 2 ^ 31) :
    atoi s = sign * HttpRequest.number digits := by
  unfold atoi
  rw [hs]
  dsimp only
  rw [hd.takeWhile]
  generalize sign * HttpRequest.number digits = n at hlo hhi ⊢
  rw [min_eq_left (by omega), max_eq_right (by omega), Int.bmod_def]
  norm_num at *
  split <;> omega

theorem isDigits_decimal (n : Nat) : HttpRequest.IsDigits (decimal n) := fun _ => mem_decimal

theorem digit_plain : ∀ c : UInt8, 48 ≤ c ∧ c ≤ 57 → isspace c = false ∧ c ≠ 45 ∧ c ≠ 43 := by
  decide

/-- Digits begin with neither white space nor a sign. -/
theorem signed_digits {ds : Bytes} (h : HttpRequest.IsDigits ds) :
    signed (ds.dropWhile isspace) = (1, ds) := by
  cases ds with
  | nil => rfl
  | cons c ds =>
    obtain ⟨hspace, hminus, hplus⟩ := digit_plain c (h c List.mem_cons_self)
    rw [List.dropWhile_cons_of_neg (by rw [hspace]; exact Bool.false_ne_true)]
    exact signed.eq_3 (c :: ds) (fun _ hc => hminus (List.cons.inj hc).1)
      fun _ hc => hplus (List.cons.inj hc).1

theorem atoi_decimal {n : Nat} (h : n < 2 ^ 31) : atoi (decimal n) = n := by
  have hone : 1 * HttpRequest.number (decimal n) = n := by rw [number_decimal, Int.one_mul]
  have hdigits := isDigits_decimal n
  rw [atoi_of_digits (signed_digits hdigits) hdigits (by omega) (by omega), hone]

/-- `std::atoi` reads what `std::to_string` writes. -/
theorem atoi_decimalInt {n : Int} (hlo : -2 ^ 31 ≤ n) (hhi : n < 2 ^ 31) :
    atoi (decimalInt n) = n := by
  unfold decimalInt
  split
  · next hneg =>
    have hminus : -1 * HttpRequest.number (decimal n.natAbs) = n := by
      rw [number_decimal]
      omega
    have hsigned : signed ((bytes "-" ++ decimal n.natAbs).dropWhile isspace) =
        (-1, decimal n.natAbs) := rfl
    rw [atoi_of_digits hsigned (isDigits_decimal _) (by omega) (by omega), hminus]
  · next hpos =>
    rw [atoi_decimal (by omega)]
    omega

theorem ofInt_toNat (p : UInt16) : UInt16.ofInt (p.toNat : Int) = p := by
  have hp := p.toNat_lt
  unfold UInt16.ofInt
  rw [Int.emod_eq_of_lt (by omega) (by omega), Int.toNat_natCast, UInt16.ofNat_toNat]

structure ServerConfig where
  rootDir : Bytes := []
  port : UInt16 := 8080
  certFile : Option Bytes := none
  keyFile : Option Bytes := none
  keepAliveTimeout : Int := 75
  help : Bool := false
  version : Bool := false
  deriving DecidableEq, Repr

/-- What `parse_args` gives up with. -/
inductive CliError where
  | requiresValue (arg : Bytes)
  | unknownOption (arg : Bytes)
  | certWithoutKey
  deriving DecidableEq, Repr

def CliError.text : CliError → Bytes
  | requiresValue arg => bytes "error: " ++ arg ++ bytes " requires a value\n"
  | unknownOption arg => bytes "error: unknown option: " ++ arg ++ bytes "\n"
  | certWithoutKey => bytes "error: --cert and --key must be used together\n"

namespace ServerConfig

def setRoot (val : Bytes) (cfg : ServerConfig) : ServerConfig := { cfg with rootDir := val }

/-- The cast to `uint16_t` keeps the number modulo 65536. -/
def setPort (val : Bytes) (cfg : ServerConfig) : ServerConfig :=
  { cfg with port := UInt16.ofInt (atoi val) }

def setCert (val : Bytes) (cfg : ServerConfig) : ServerConfig := { cfg with certFile := some val }

def setKey (val : Bytes) (cfg : ServerConfig) : ServerConfig := { cfg with keyFile := some val }

def setTimeout (val : Bytes) (cfg : ServerConfig) : ServerConfig :=
  { cfg with keepAliveTimeout := atoi val }

end ServerConfig

/-- The loop of `parse_args` on the arguments that are left. -/
def parseLoop (cfg : ServerConfig) : List Bytes → Except CliError ServerConfig
  | [] => .ok cfg
  | arg :: rest =>
    if arg = bytes "--help" ∨ arg = bytes "-h" then parseLoop { cfg with help := true } rest
    else if arg = bytes "--version" then parseLoop { cfg with version := true } rest
    else match rest with
      | [] => .error (.requiresValue arg)
      | val :: rest =>
        if arg = bytes "--root" then parseLoop (cfg.setRoot val) rest
        else if arg = bytes "--port" then parseLoop (cfg.setPort val) rest
        else if arg = bytes "--cert" then parseLoop (cfg.setCert val) rest
        else if arg = bytes "--key" then parseLoop (cfg.setKey val) rest
        else if arg = bytes "--timeout" then parseLoop (cfg.setTimeout val) rest
        else .error (.unknownOption arg)

/-- `parse_args`. The first argument is the program's name. -/
def parseArgs (args : List Bytes) : Except CliError ServerConfig :=
  match parseLoop {} (args.drop 1) with
  | .error e => .error e
  | .ok cfg =>
    if cfg.certFile.isSome ≠ cfg.keyFile.isSome then .error .certWithoutKey
    else if cfg.rootDir = [] then .ok { cfg with rootDir := bytes "." }
    else .ok cfg

/-- What the command line can say. -/
inductive CliOption where
  | help
  | helpShort
  | version
  | root (val : Bytes)
  | port (val : Bytes)
  | cert (val : Bytes)
  | key (val : Bytes)
  | timeout (val : Bytes)
  deriving DecidableEq, Repr

namespace CliOption

/-- How an option is written. -/
def render : CliOption → List Bytes
  | help => [bytes "--help"]
  | helpShort => [bytes "-h"]
  | version => [bytes "--version"]
  | root val => [bytes "--root", val]
  | port val => [bytes "--port", val]
  | cert val => [bytes "--cert", val]
  | key val => [bytes "--key", val]
  | timeout val => [bytes "--timeout", val]

def set (cfg : ServerConfig) : CliOption → ServerConfig
  | help => { cfg with help := true }
  | helpShort => { cfg with help := true }
  | version => { cfg with version := true }
  | root val => cfg.setRoot val
  | port val => cfg.setPort val
  | cert val => cfg.setCert val
  | key val => cfg.setKey val
  | timeout val => cfg.setTimeout val

/-- The option that a command line begins with. -/
def read : List Bytes → Except CliError (CliOption × List Bytes)
  | [] => .error (.requiresValue [])
  | arg :: rest =>
    if arg = bytes "--help" then .ok (help, rest)
    else if arg = bytes "-h" then .ok (helpShort, rest)
    else if arg = bytes "--version" then .ok (version, rest)
    else match rest with
      | [] => .error (.requiresValue arg)
      | val :: rest =>
        if arg = bytes "--root" then .ok (root val, rest)
        else if arg = bytes "--port" then .ok (port val, rest)
        else if arg = bytes "--cert" then .ok (cert val, rest)
        else if arg = bytes "--key" then .ok (key val, rest)
        else if arg = bytes "--timeout" then .ok (timeout val, rest)
        else .error (.unknownOption arg)

theorem render_ne_nil (o : CliOption) : o.render ≠ [] := by
  cases o <;> exact List.cons_ne_nil _ _

theorem read_render (o : CliOption) (rest : List Bytes) :
    read (o.render ++ rest) = .ok (o, rest) := by
  cases o with
  | help => rfl
  | helpShort => rfl
  | version => rfl
  | root val => rfl
  | port val => rfl
  | cert val => rfl
  | key val => rfl
  | timeout val => rfl

theorem render_of_read {args rest : List Bytes} {o : CliOption} (h : read args = .ok (o, rest)) :
    args = o.render ++ rest := by
  unfold read at h
  split at h
  · cases h
  · split at h
    · next hname => cases h; rw [hname]; rfl
    split at h
    · next hname => cases h; rw [hname]; rfl
    split at h
    · next hname => cases h; rw [hname]; rfl
    split at h
    · cases h
    split at h
    · next hname => cases h; rw [hname]; rfl
    split at h
    · next hname => cases h; rw [hname]; rfl
    split at h
    · next hname => cases h; rw [hname]; rfl
    split at h
    · next hname => cases h; rw [hname]; rfl
    split at h
    · next hname => cases h; rw [hname]; rfl
    · cases h

def reader : Reader Bytes CliError CliOption where
  read := read
  render := render
  render_ne_nil := render_ne_nil
  read_eq_ok_iff := by
    intro args o rest
    constructor
    · exact render_of_read
    · rintro rfl
      exact read_render o rest

end CliOption

/-- A round of the loop takes one option. -/
theorem parseLoop_cons (cfg : ServerConfig) (arg : Bytes) (rest : List Bytes) :
    parseLoop cfg (arg :: rest) = match CliOption.read (arg :: rest) with
      | .ok (o, rest) => parseLoop (o.set cfg) rest
      | .error e => .error e := by
  unfold CliOption.read
  rw [parseLoop.eq_def]
  dsimp only
  by_cases hhelp : arg = bytes "--help"
  · rw [if_pos (.inl hhelp), if_pos hhelp]
    rfl
  rw [if_neg hhelp]
  by_cases hshort : arg = bytes "-h"
  · rw [if_pos (.inr hshort), if_pos hshort]
    rfl
  rw [if_neg (not_or.2 ⟨hhelp, hshort⟩), if_neg hshort]
  by_cases hversion : arg = bytes "--version"
  · rw [if_pos hversion, if_pos hversion]
    rfl
  rw [if_neg hversion, if_neg hversion]
  cases rest with
  | nil => rfl
  | cons val rest =>
    dsimp only
    split
    · rfl
    split
    · rfl
    split
    · rfl
    split
    · rfl
    split
    · rfl
    · rfl

/-- The loop reads the options of the command line one by one. -/
theorem parseLoop_reads {args : List Bytes} {opts : List CliOption} {e : Option CliError}
    (h : Reads CliOption.reader args opts e) (cfg : ServerConfig) :
    parseLoop cfg args = e.elim (.ok (opts.foldl CliOption.set cfg)) .error := by
  induction h generalizing cfg with
  | nil => rfl
  | @cons args rest o opts e hread hrest ih =>
    cases args with
    | nil => cases hread
    | cons arg args =>
      rw [parseLoop_cons, show CliOption.read (arg :: args) = .ok (o, rest) from hread]
      exact ih (o.set cfg)
  | @error args e hne herr =>
    cases args with
    | nil => exact (hne rfl).elim
    | cons arg args =>
      rw [parseLoop_cons, show CliOption.read (arg :: args) = .error e from herr]
      rfl

namespace CliOption

def rootOf : CliOption → Option Bytes
  | root val => some val
  | _ => none

def portOf : CliOption → Option UInt16
  | port val => some (UInt16.ofInt (atoi val))
  | _ => none

def certOf : CliOption → Option Bytes
  | cert val => some val
  | _ => none

def keyOf : CliOption → Option Bytes
  | key val => some val
  | _ => none

def timeoutOf : CliOption → Option Int
  | timeout val => some (atoi val)
  | _ => none

def isHelp (o : CliOption) : Bool := o = help ∨ o = helpShort

/-- The configuration that options stand for. Of several options of a kind the last one counts. -/
def config (opts : List CliOption) : ServerConfig where
  rootDir :=
    let dir := (opts.filterMap rootOf).getLast?.getD []
    if dir = [] then bytes "." else dir
  port := (opts.filterMap portOf).getLast?.getD 8080
  certFile := (opts.filterMap certOf).getLast?
  keyFile := (opts.filterMap keyOf).getLast?
  keepAliveTimeout := (opts.filterMap timeoutOf).getLast?.getD 75
  help := opts.any isHelp
  version := opts.any (· = .version)

theorem getLast_filterMap_some (f : CliOption → Option Bytes) (opts : List CliOption) :
    (opts.filterMap fun o => (f o).map some).getLast?.getD none =
      (opts.filterMap f).getLast? := by
  have hmap : (opts.filterMap fun o => (f o).map some) = (opts.filterMap f).map some := by
    rw [List.map_filterMap]
  rw [hmap, List.getLast?_map]
  cases (opts.filterMap f).getLast? <;> rfl

theorem foldl_or (get : ServerConfig → Bool) (p : CliOption → Bool)
    (h : ∀ cfg o, get (set cfg o) = (get cfg || p o)) (cfg : ServerConfig)
    (opts : List CliOption) : get (opts.foldl set cfg) = (get cfg || opts.any p) := by
  induction opts generalizing cfg with
  | nil => exact (Bool.or_false _).symm
  | cons o opts ih => rw [List.foldl_cons, ih, h, List.any_cons, Bool.or_assoc]

/-- The loop ends with the last of each kind. -/
theorem foldl_set (opts : List CliOption) : opts.foldl set {} =
    { config opts with rootDir := (opts.filterMap rootOf).getLast?.getD [] } := by
  have hroot := foldl_last set ServerConfig.rootDir rootOf
    (fun cfg o => by cases o <;> rfl) {} opts
  have hport := foldl_last set ServerConfig.port portOf
    (fun cfg o => by cases o <;> rfl) {} opts
  have hcert := foldl_last set ServerConfig.certFile
    (fun o => (certOf o).map some) (fun cfg o => by cases o <;> rfl) {} opts
  have hkey := foldl_last set ServerConfig.keyFile
    (fun o => (keyOf o).map some) (fun cfg o => by cases o <;> rfl) {} opts
  have htimeout := foldl_last set ServerConfig.keepAliveTimeout timeoutOf
    (fun cfg o => by cases o <;> rfl) {} opts
  have hhelp := foldl_or ServerConfig.help isHelp
    (fun cfg o => by cases o <;> simp [set, isHelp, ServerConfig.setRoot, ServerConfig.setPort,
      ServerConfig.setCert, ServerConfig.setKey, ServerConfig.setTimeout]) {} opts
  have hversion := foldl_or ServerConfig.version (· = version)
    (fun cfg o => by cases o <;> simp [set, ServerConfig.setRoot, ServerConfig.setPort,
      ServerConfig.setCert, ServerConfig.setKey, ServerConfig.setTimeout]) {} opts
  rw [getLast_filterMap_some certOf] at hcert
  rw [getLast_filterMap_some keyOf] at hkey
  cases hcfg : opts.foldl set {} with
  | mk rootDir port certFile keyFile keepAliveTimeout help version =>
    rw [hcfg] at hroot hport hcert hkey htimeout hhelp hversion
    simp only [Bool.false_or] at hroot hport hcert hkey htimeout hhelp hversion
    rw [hroot, hport, hcert, hkey, htimeout, hhelp, hversion]
    rfl

/-- A certificate comes with a key. -/
def Paired (opts : List CliOption) : Prop :=
  (config opts).certFile.isSome = (config opts).keyFile.isSome

instance (opts : List CliOption) : Decidable (Paired opts) :=
  inferInstanceAs (Decidable (_ = _))

def flags : List Bytes := [bytes "--help", bytes "-h", bytes "--version"]

def names : List Bytes :=
  [bytes "--root", bytes "--port", bytes "--cert", bytes "--key", bytes "--timeout"]

/-- What no option begins with: a last argument that is not a flag, or a name that is not known. -/
inductive Unread : List Bytes → CliError → Prop
  | requiresValue {arg : Bytes} : arg ∉ flags → Unread [arg] (.requiresValue arg)
  | unknownOption {arg val : Bytes} {rest : List Bytes} : arg ∉ flags → arg ∉ names →
    Unread (arg :: val :: rest) (.unknownOption arg)

theorem read_of_unread {args : List Bytes} {e : CliError} (h : Unread args e) :
    read args = .error e := by
  cases h with
  | requiresValue hflag =>
    simp only [flags, List.mem_cons, not_or] at hflag
    unfold read
    dsimp only
    rw [if_neg hflag.1, if_neg hflag.2.1, if_neg hflag.2.2.1]
  | unknownOption hflag hname =>
    simp only [flags, names, List.mem_cons, not_or] at hflag hname
    unfold read
    dsimp only
    rw [if_neg hflag.1, if_neg hflag.2.1, if_neg hflag.2.2.1, if_neg hname.1, if_neg hname.2.1,
      if_neg hname.2.2.1, if_neg hname.2.2.2.1, if_neg hname.2.2.2.2.1]

theorem unread_of_read {args : List Bytes} {e : CliError} (hne : args ≠ [])
    (h : read args = .error e) : Unread args e := by
  have hflag (arg : Bytes) (rest : List Bytes) (h : read (arg :: rest) = .error e) :
      arg ∉ flags := by
    intro hmem
    simp only [flags, List.mem_cons, List.not_mem_nil, or_false] at hmem
    rcases hmem with rfl | rfl | rfl
    · cases h
    · cases h
    · cases h
  cases args with
  | nil => exact (hne rfl).elim
  | cons arg rest =>
    have hnot := hflag arg rest h
    cases rest with
    | nil =>
      have he := read_of_unread (.requiresValue hnot)
      rw [h] at he
      cases he
      exact .requiresValue hnot
    | cons val rest =>
      have hname : arg ∉ names := by
        intro hmem
        simp only [names, List.mem_cons, List.not_mem_nil, or_false] at hmem
        rcases hmem with rfl | rfl | rfl | rfl | rfl
        · cases h
        · cases h
        · cases h
        · cases h
        · cases h
      have hun : Unread (arg :: val :: rest) (.unknownOption arg) := .unknownOption hnot hname
      have he := read_of_unread hun
      rw [h] at he
      cases he
      exact .unknownOption hnot hname

/-- What the arguments behind the program's name say: a configuration, or why there is none. -/
inductive Tells (args : List Bytes) : Except CliError ServerConfig → Prop
  | config {opts : List CliOption} : args = opts.flatMap render → Paired opts →
    Tells args (.ok (config opts))
  | unpaired {opts : List CliOption} : args = opts.flatMap render → ¬ Paired opts →
    Tells args (.error .certWithoutKey)
  | unread {opts : List CliOption} {rest : List Bytes} {e : CliError} :
    args = opts.flatMap render ++ rest → Unread rest e → Tells args (.error e)

end CliOption

open CliOption

theorem tells_exists (args : List Bytes) : ∃ r, Tells args r := by
  obtain ⟨opts, e, h⟩ := reads_exists reader args
  cases e with
  | none =>
    have hargs := reads_none_iff.1 h
    by_cases hp : Paired opts
    · exact ⟨_, .config hargs hp⟩
    · exact ⟨_, .unpaired hargs hp⟩
  | some e =>
    obtain ⟨rest, hargs, hne, herr⟩ := reads_some_iff.1 h
    exact ⟨_, .unread hargs (unread_of_read hne herr)⟩

/-- The end of `parse_args`. -/
theorem parseArgs_of_reads {args : List Bytes} {opts : List CliOption} (prog : Bytes)
    (h : Reads reader args opts none) : parseArgs (prog :: args) =
      if Paired opts then .ok (config opts) else .error .certWithoutKey := by
  unfold parseArgs
  rw [List.drop_one, List.tail_cons, parseLoop_reads h, Option.elim_none, foldl_set]
  dsimp only
  by_cases hp : Paired opts
  · have hne : ¬ ((config opts).certFile.isSome ≠ (config opts).keyFile.isSome) := not_not.2 hp
    rw [if_neg hne, if_pos hp]
    unfold config
    dsimp only
    split
    · rfl
    · rfl
  · have hne : (config opts).certFile.isSome ≠ (config opts).keyFile.isSome := hp
    rw [if_pos hne, if_neg hp]

theorem parseArgs_of_tells {args : List Bytes} {r : Except CliError ServerConfig} (prog : Bytes)
    (h : Tells args r) : parseArgs (prog :: args) = r := by
  cases h with
  | config hargs hp => rw [parseArgs_of_reads prog (reads_none_iff.2 hargs), if_pos hp]
  | unpaired hargs hp => rw [parseArgs_of_reads prog (reads_none_iff.2 hargs), if_neg hp]
  | @unread opts rest e hargs hrest =>
    have hne : rest ≠ [] := by
      cases hrest with
      | requiresValue => exact List.cons_ne_nil _ _
      | unknownOption => exact List.cons_ne_nil _ _
    have h : Reads reader args opts (some e) :=
      reads_some_iff.2 ⟨rest, hargs, hne, read_of_unread hrest⟩
    unfold parseArgs
    rw [List.drop_one, List.tail_cons, parseLoop_reads h]
    rfl

/-- `parse_args` gives exactly what the command line says. -/
theorem parseArgs_eq_iff (prog : Bytes) (args : List Bytes) (r : Except CliError ServerConfig) :
    parseArgs (prog :: args) = r ↔ Tells args r := by
  constructor
  · intro h
    obtain ⟨r', hr'⟩ := tells_exists args
    have hr := parseArgs_of_tells prog hr'
    rw [← h, hr]
    exact hr'
  · exact parseArgs_of_tells prog

namespace CliOption

/-- The options that write a configuration out. -/
def options (cfg : ServerConfig) : List CliOption :=
  [root cfg.rootDir, port (decimal cfg.port.toNat), timeout (decimalInt cfg.keepAliveTimeout)] ++
    cfg.certFile.toList.map cert ++ cfg.keyFile.toList.map key ++
    (if cfg.help then [help] else []) ++ if cfg.version then [version] else []

theorem getLast_perm {l l' : List α} {a : Option α} (h : l.Perm l') (hl : l' = a.toList) :
    l.getLast? = a := by
  subst hl
  cases a with
  | none => rw [List.Perm.eq_nil h]; rfl
  | some a => rw [List.perm_singleton.1 h]; rfl

/-- What is written sets each field once. -/
theorem options_set {cfg : ServerConfig} (hlo : -2 ^ 31 ≤ cfg.keepAliveTimeout)
    (hhi : cfg.keepAliveTimeout < 2 ^ 31) :
    (options cfg).filterMap rootOf = [cfg.rootDir] ∧ (options cfg).filterMap portOf = [cfg.port] ∧
      (options cfg).filterMap certOf = cfg.certFile.toList ∧
      (options cfg).filterMap keyOf = cfg.keyFile.toList ∧
      (options cfg).filterMap timeoutOf = [cfg.keepAliveTimeout] ∧
      (options cfg).any isHelp = cfg.help ∧ (options cfg).any (· = version) = cfg.version := by
  have hport : UInt16.ofInt (atoi (decimal cfg.port.toNat)) = cfg.port := by
    have hlt := cfg.port.toNat_lt
    rw [atoi_decimal (by omega), ofInt_toNat]
  have htimeout := atoi_decimalInt hlo hhi
  obtain ⟨dir, port, certFile, keyFile, timeout, help, version⟩ := cfg
  dsimp only at hport htimeout
  have hread : (options ⟨dir, port, certFile, keyFile, timeout, help, version⟩).filterMap portOf =
      [UInt16.ofInt (atoi (decimal port.toNat))] ∧
      (options ⟨dir, port, certFile, keyFile, timeout, help, version⟩).filterMap timeoutOf =
      [atoi (decimalInt timeout)] := by
    cases certFile <;> cases keyFile <;> cases help <;> cases version <;> exact ⟨rfl, rfl⟩
  rw [hport, htimeout] at hread
  refine ⟨?_, hread.1, ?_, ?_, hread.2, ?_, ?_⟩
  all_goals cases certFile <;> cases keyFile <;> cases help <;> cases version <;> rfl

theorem config_options {cfg : ServerConfig} {opts : List CliOption} (hroot : cfg.rootDir ≠ [])
    (hlo : -2 ^ 31 ≤ cfg.keepAliveTimeout) (hhi : cfg.keepAliveTimeout < 2 ^ 31)
    (h : opts.Perm (options cfg)) : config opts = cfg := by
  obtain ⟨hdir, hport, hcert, hkey, htimeout, hhelp, hversion⟩ := options_set hlo hhi
  unfold config
  rw [getLast_perm (h.filterMap rootOf) (a := some cfg.rootDir) hdir,
    getLast_perm (h.filterMap portOf) (a := some cfg.port) hport,
    getLast_perm (h.filterMap certOf) hcert, getLast_perm (h.filterMap keyOf) hkey,
    getLast_perm (h.filterMap timeoutOf) (a := some cfg.keepAliveTimeout) htimeout, h.any_eq, hhelp,
    h.any_eq, hversion]
  exact congrArg (fun dir => { cfg with rootDir := dir }) (if_neg hroot)

end CliOption

/-- Every configuration can be asked for: the options that write it out can come in any order. -/
theorem parseArgs_options {cfg : ServerConfig} {opts : List CliOption} (prog : Bytes)
    (hroot : cfg.rootDir ≠ []) (hpair : cfg.certFile.isSome = cfg.keyFile.isSome)
    (hlo : -2 ^ 31 ≤ cfg.keepAliveTimeout) (hhi : cfg.keepAliveTimeout < 2 ^ 31)
    (h : opts.Perm (options cfg)) : parseArgs (prog :: opts.flatMap render) = .ok cfg := by
  have hcfg := config_options hroot hlo hhi h
  have hp : Paired opts := by
    unfold Paired
    rw [hcfg]
    exact hpair
  rw [parseArgs_of_tells prog (.config rfl hp), hcfg]

theorem parseArgs_secure : parseArgs [bytes "file_web_server", bytes "--key", bytes "key.pem",
    bytes "--timeout", bytes "-5", bytes "--root", bytes "/srv", bytes "--cert", bytes "cert.pem",
    bytes "--port", bytes "8443"] =
      .ok ⟨bytes "/srv", 8443, some (bytes "cert.pem"), some (bytes "key.pem"), -5, false, false⟩ :=
  have h : [key (bytes "key.pem"), timeout (bytes "-5"), root (bytes "/srv"),
      cert (bytes "cert.pem"), port (bytes "8443")].Perm
      (options ⟨bytes "/srv", 8443, some (bytes "cert.pem"), some (bytes "key.pem"), -5, false,
        false⟩) := by
    decide
  parseArgs_options (bytes "file_web_server") (by decide) rfl (by decide) (by decide) h

end FileWebServer
