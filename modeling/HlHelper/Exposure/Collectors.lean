import Mathlib.Algebra.GroupWithZero.Nat
import Mathlib.Data.List.DropRight

/-! What the agent's collectors read of a host under `/proc`, and the messages they fill. -/

namespace HlHelper.Exposure

section Text

def isSpace (c : Char) : Bool :=
  c.toNat ∈ [0x20, 0x85, 0xa0, 0x1680, 0x2028, 0x2029, 0x202f, 0x205f, 0x3000] ||
    (0x09 ≤ c.toNat && c.toNat ≤ 0x0d) || (0x2000 ≤ c.toNat && c.toNat ≤ 0x200a)

def fields (text : List Char) : List (List Char) :=
  (text.splitOnP isSpace).filter (· ≠ [])

def trimSpace (text : List Char) : List Char := (text.dropWhile isSpace).rdropWhile isSpace

def fromSlash (text : List Char) : Option (List Char) :=
  if '/' ∈ text then some (text.dropWhile (· ≠ '/')) else none

/-- The items without repetition, in the order they first occur. -/
def dedupe {α : Type} [DecidableEq α] (items : List α) : List α :=
  items.foldl (fun out item => if item ∈ out then out else out ++ [item]) []

end Text

/-- A process, as its directory under `/proc` shows it. -/
structure HostProcess where
  pid : Nat
  exe : Option String
  cmdline : String
  status : List String
  maps : List String

inductive Transport where
  | tcp
  | udp
  deriving DecidableEq, Repr

/-- A socket with the process that owns it; addresses are in network order. -/
structure Socket where
  transport : Transport
  ipv6 : Bool
  localAddr : List Nat
  localPort : Nat
  remoteAddr : List Nat
  remotePort : Nat
  state : Nat
  uid : Nat
  inode : Nat
  owner : Nat
  deriving DecidableEq, Repr

/-- `TCP_LISTEN`, or an unconnected datagram socket. -/
def Socket.listening (socket : Socket) : Bool :=
  match socket.transport with
  | .tcp => socket.state = 0x0a
  | .udp => socket.state = 0x07

def Socket.loopback (socket : Socket) : Bool :=
  if socket.ipv6 then socket.localAddr = List.replicate 15 0 ++ [1]
  else socket.localAddr.head? = some 127

structure Host where
  processes : List HostProcess
  sockets : List Socket
  units : List String
  modules : List String
  pids : ∀ p ∈ processes, 0 < p.pid ∧ p.pid < 2 ^ 32
  links : ∀ p ∈ processes, p.exe ≠ some ""

section ProcNet

def hexDigits : Nat → Nat → List Char
  | 0, _ => []
  | width + 1, value => hexDigits width (value / 16) ++ [(Nat.digitChar (value % 16)).toUpper]

/-- The words of an address, each as the kernel prints it on a little-endian machine. -/
def hexAddr : List Nat → List Char
  | a :: b :: c :: d :: rest => [d, c, b, a].flatMap (hexDigits 2) ++ hexAddr rest
  | _ => []

/-- A line of `/proc/net/tcp` and its siblings. -/
def procNetLine (slot : Nat) (socket : Socket) : List Char :=
  (toString slot).toList ++ [':', ' '] ++
    hexAddr socket.localAddr ++ ':' :: hexDigits 4 socket.localPort ++ ' ' ::
    hexAddr socket.remoteAddr ++ ':' :: hexDigits 4 socket.remotePort ++ ' ' ::
    hexDigits 2 socket.state ++
    " 00000000:00000000 00:00000000 00000000 ".toList ++
    (toString socket.uid).toList ++ " 0 ".toList ++ (toString socket.inode).toList

/-- A file of `/proc/net`, its heading first. -/
def Host.procNet (host : Host) (transport : Transport) (ipv6 : Bool) : List (List Char) :=
  "sl local_address rem_address st".toList ::
    (host.sockets.filter fun socket =>
      socket.transport = transport && socket.ipv6 = ipv6).mapIdx procNetLine

end ProcNet

structure Process where
  pid : Nat
  exePath : String
  user : String
  cmdline : String
  loadedLibs : List String
  pkg : String := ""
  pkgVersion : String := ""
  deriving DecidableEq, Repr

structure ListeningSocket where
  proto : String
  bindAddr : String
  port : Nat
  pid : Nat := 0
  deriving DecidableEq, Repr

structure Connection where
  proto : String
  localAddr : String
  localPort : Nat
  remoteAddr : String
  remotePort : Nat
  pid : Nat := 0
  state : String
  deriving DecidableEq, Repr

structure Service where
  name : String
  initSystem : String
  execPath : String := ""
  enabled : Bool
  active : Bool
  pkg : String := ""
  pkgVersion : String := ""
  deriving DecidableEq, Repr

structure KernelModule where
  name : String
  version : String := ""
  pkg : String := ""
  deriving DecidableEq, Repr

structure CollectorResult where
  processes : List Process := []
  listeners : List ListeningSocket := []
  connections : List Connection := []
  services : List Service := []
  kernelModules : List KernelModule := []
  truncated : Bool := false
  deriving DecidableEq, Repr

def defaultMaxProcesses : Nat := 1000
def defaultMaxConnections : Nat := 5000
def defaultMaxUniqueLibs : Nat := 10000
def defaultMaxListeners : Nat := 5000
def defaultMaxKernelModules : Nat := 1000

/-- `ApplyProcessBudget` and its siblings. -/
def applyBudget {α : Type} (items : List α) (cap : Nat) : List α × Bool :=
  if items.length ≤ cap then (items, false) else (items.take cap, true)

namespace SocketCollector

def hexValue (c : Char) : Option Nat :=
  if c.isDigit then some (c.toNat - '0'.toNat)
  else if 'a' ≤ c ∧ c ≤ 'f' then some (c.toNat - 'a'.toNat + 10)
  else if 'A' ≤ c ∧ c ≤ 'F' then some (c.toNat - 'A'.toNat + 10)
  else none

def decodeString : List Char → Option (List Nat)
  | [] => some []
  | [_] => none
  | high :: low :: rest => do
      let high ← hexValue high
      let low ← hexValue low
      let bytes ← decodeString rest
      return (16 * high + low) :: bytes

/-- `strconv.ParseUint(s, 16, 32)`. -/
def parseUint (digits : List Char) : Option Nat := do
  let values ← digits.mapM hexValue
  let value := values.foldl (fun value digit => 16 * value + digit) 0
  if digits = [] ∨ value ≥ 2 ^ 32 then none else some value

/-- `ipString` is `net.IP.String`. -/
def decodeAddrPort (ipString : List Nat → String) (text : List Char) (ipv6 : Bool) :
    Option (String × Nat) := do
  let addrHex := text.takeWhile (· ≠ ':')
  let portHex ← (text.dropWhile (· ≠ ':')).tail?
  let port ← parseUint portHex
  let little ← decodeString addrHex
  let bytes := little.reverse
  if (ipv6 ∧ bytes.length = 16) ∨ bytes.length = 4 then some (ipString bytes, port)
  else some ("", port)

def parseLine (ipString : List Nat → String) (proto : String) (ipv6 : Bool)
    (out : List ListeningSocket × List Connection) (line : List Char) :
    List ListeningSocket × List Connection :=
  match fields line with
  | _ :: localText :: remoteText :: state :: _ =>
    match decodeAddrPort ipString localText ipv6 with
    | none => out
    | some (bindAddr, port) =>
      if state = ['0', 'A'] then (out.1 ++ [{ proto, bindAddr, port }], out.2)
      else if state = ['0', '1'] then
        let remote := (decodeAddrPort ipString remoteText ipv6).getD ("", 0)
        (out.1, out.2 ++ [{
          proto
          localAddr := bindAddr
          localPort := port
          remoteAddr := remote.1
          remotePort := remote.2
          state := "ESTABLISHED" }])
      else out
  | _ => out

/-- A `bufio.Scanner` gives the lines; at one of 64 KiB it stops. -/
def parseProcNet (ipString : List Nat → String) (lines : List (List Char)) (proto : String)
    (ipv6 : Bool) : List ListeningSocket × List Connection :=
  (lines.drop 1).foldl (parseLine ipString proto ipv6) ([], [])

/-- `late i` tells that the deadline had passed after the `i`-th file. -/
def collect (ipString : List Nat → String) (host : Host) (late : Nat → Bool) : CollectorResult :=
  let files := [(Transport.tcp, "tcp", false), (.tcp, "tcp6", true), (.udp, "udp", false),
    (.udp, "udp6", true)]
  let read := if late 0 then 1 else if late 1 then 2 else if late 2 then 3 else 4
  let parsed := (files.take read).map fun (transport, proto, ipv6) =>
    parseProcNet ipString (host.procNet transport ipv6) proto ipv6
  let (listeners, lTrunc) := applyBudget (parsed.flatMap Prod.fst) defaultMaxListeners
  let (connections, cTrunc) := applyBudget (parsed.flatMap Prod.snd) defaultMaxConnections
  { listeners, connections,
    truncated := late 0 || late 1 || late 2 || late 3 || lTrunc || cTrunc }

end SocketCollector

namespace ProcessCollector

def isLibraryPath (path : List Char) : Bool :=
  ["/usr/lib", "/lib", "/usr/local/lib", "/opt"].any (fun start => start.toList.isPrefixOf path) &&
    path.tails.any (".so".toList.isPrefixOf ·)

def readLoadedLibs (maps : List String) : List String :=
  dedupe <| maps.filterMap fun line =>
    ((fromSlash line.toList).map trimSpace).bind fun path =>
      if isLibraryPath path then some (String.ofList path) else none

def dedupeLibs (libs : List String) (cap : Nat) : List String := (dedupe libs).take cap

def user (status : List String) : String :=
  match status.find? fun line => "Uid:".toList.isPrefixOf line.toList with
  | none => ""
  | some line => (((fields line.toList)[1]?).map String.ofList).getD ""

def cmdline (raw : String) : String :=
  String.ofList <| (raw.toList.rdropWhile (· = '\x00')).map fun c => if c = '\x00' then ' ' else c

def readProcess (p : HostProcess) : Process where
  pid := p.pid % 2 ^ 32
  exePath := p.exe.getD ""
  user := user p.status
  cmdline := cmdline p.cmdline
  loadedLibs := dedupeLibs (readLoadedLibs p.maps) defaultMaxUniqueLibs

/-- `late i` tells that the deadline had passed before the `i`-th process. -/
def collect (host : Host) (late : Nat → Bool) : CollectorResult :=
  let reached := (List.range host.processes.length).takeWhile fun i => !late i
  let (processes, truncated) :=
    applyBudget ((host.processes.take reached.length).map readProcess) defaultMaxProcesses
  { processes, truncated := truncated || reached.length < host.processes.length }

end ProcessCollector

def collectServices (host : Host) : CollectorResult where
  services := host.units.filterMap fun line =>
    match fields line.toList with
    | name :: _ :: active :: _ :: _ =>
      if name = "UNIT".toList then none
      else some {
        name := String.ofList name
        initSystem := "systemd"
        active := active = "active".toList
        enabled := true }
    | _ => none

def collectModules (host : Host) : CollectorResult :=
  let (kernelModules, truncated) := applyBudget
    (host.modules.filterMap fun line =>
      (fields line.toList).head?.map fun name => { name := String.ofList name })
    defaultMaxKernelModules
  { kernelModules, truncated }

end HlHelper.Exposure
