import OS64.ArpCache
import OS64.Ipv4Route
/-!
# NetStack — the state of the network stack and the way out of it

Each layer calls `net_reserve`, writes its header at the new `data` and hands the buffer on, down to the driver, which
is given the bytes from `data` on.  What arrives from outside during a call (ARP packets while `arp_resolve` waits, the
ticks of the clock, the memory that `malloc` hands out) is part of the call's environment.
-/
namespace OS64
namespace Net

def ethHlen : Nat := 14
def ethMinFrame : Nat := 64
def ethPIp : Nat := 0x0800
def ethPArp : Nat := 0x0806
def ethPIpv6 : Nat := 0x86DD

def ipProtoIcmp : Nat := 1
def ipProtoTcp : Nat := 6
def ipProtoUdp : Nat := 17

def ipv4HeaderMin : Nat := 20
def udpHeaderSize : Nat := 8
def arpHeaderSize : Nat := 28

def ethMacBroadcast : Mac := fun _ => 0xFF#8

/-- The handlers that `ethernet_init` registers. -/
inductive EthHandler where
  | ipv4
  | ipv6
  | arp
deriving DecidableEq

/-- The handlers that `icmp_init`, `tcp_init` and `udp_init` register with `ipv4_register_protocol`. -/
inductive IpHandler where
  | icmp
  | tcp
  | udp
deriving DecidableEq

inductive UdpHandler where
  | dhcp
  | other (id : Nat)
deriving DecidableEq

/-- `dhcp_client_t`; `dev` is the pointer to the device. -/
structure DhcpClient where
  dev : Nat
  running : Bool
  configured : Bool
  xid : BitVec 32
  yiaddr : BitVec 32
  serverIp : BitVec 32
  subnetMask : BitVec 32
  gateway : BitVec 32
  dnsServer : BitVec 32
  leaseTime : BitVec 32
  leaseExpires : Nat
  renewTime : Nat
  rebindTime : Nat
  callback : Nat

/-- `icmp_ping_state`, but for the time that is only printed. -/
structure PingState where
  waiting : Bool
  id : Nat
  sequence : Nat
  completed : Bool

/-- A call of the UDP handler of a port: the arguments, and the bytes of the buffer that it is given. -/
structure UdpCall where
  handler : UdpHandler
  src : Ipv4Addr
  dst : Ipv4Addr
  srcPort : Nat
  dstPort : Nat
  payload : Frame

/-- The state of the stack, with the frames given to the drivers, the calls of UDP handlers and the calls of DHCP
callbacks so far. -/
structure Host where
  devs : Nat → NetDevice
  ethProtocols : Nat → Option EthHandler
  ipv4Protocols : Nat → Option IpHandler
  udpHandlers : Nat → Option UdpHandler
  routes : List Route
  idCounter : Nat
  arp : ArpCache
  ping : PingState
  clients : List DhcpClient
  sent : List (Nat × Frame)
  calls : List UdpCall
  notified : List (Nat × Bool)

/-- What happens around a call: the tick at the first look into the ARP cache and at the one after the wait, the ARP
packets heard in between, the memory for a new buffer and for the buffer of an ARP packet, the memory for two routes,
what the caller has left in the register of the third argument, and what the handlers of TCP and of IPv6 do with a
buffer, which is anything but a call of a UDP handler. -/
structure NetEnv where
  now : Nat
  later : Nat
  heard : List (Ipv4Addr × Mac × Nat)
  block : Option Mem
  arpBlock : Option Mem
  routeRoom : Bool × Bool
  rdx : Nat
  tcpInput : Host → NetBuf → Nat → Host
  ipv6Input : Host → NetBuf → Nat → Host
  tcpCalls : ∀ h buf dev, (tcpInput h buf dev).calls = h.calls
  ipv6Calls : ∀ h buf dev, (ipv6Input h buf dev).calls = h.calls

/-! ## Ethernet -/

def ethHeader (buf : NetBuf) (dstMac srcMac : Mac) (type : Nat) : NetBuf :=
  let block := blit (blit buf.block buf.data 6 (macBytes dstMac)) (buf.data + 6) 6 (macBytes srcMac)
  { buf with block := store block (buf.data + 12) 2 (ntohs type) }

def ethPad (buf : NetBuf) : NetBuf :=
  if buf.len < ethMinFrame - ethHlen then
    { buf with
      block := fill buf.block (buf.data + buf.len) (ethMinFrame - ethHlen - buf.len) 0#8
      len := ethMinFrame - ethHlen }
  else buf

def NetBuf.frame (buf : NetBuf) : Frame := { bytes := buf.byte, len := buf.len }

def ethFrame (buf : NetBuf) (srcMac dstMac : Mac) (type : Nat) : NetBuf :=
  ethPad (ethHeader (buf.reserve ethHlen) dstMac srcMac type)

def ethernetOutput (h : Host) (buf : NetBuf) (dev : Nat) (dstMac : Mac) (type : Nat) : Host × Int :=
  if dev = 0 then (h, -1)
  else
    ({ h with sent := h.sent ++ [(dev, (ethFrame buf (h.devs dev).macAddr dstMac type).frame)] }, (h.devs dev).xmit)

/-! ## ARP -/

/-- The packet of `arp_request`: hardware and protocol type, lengths and operation, the sender and the target. -/
def arpPacket (block : Mem) (dev : NetDevice) (ip : Ipv4Addr) : NetBuf :=
  let buf := netAllocBuf block arpHeaderSize
  let m := fill buf.block buf.data arpHeaderSize 0#8
  let m := store
    (store (store (store (store m buf.data 2 (ntohs 1)) (buf.data + 2) 2 (ntohs 0x0800)) (buf.data + 4) 1 6)
    (buf.data + 5) 1 4) (buf.data + 6) 2 (ntohs 1)
  let m := store (blit m (buf.data + 8) 6 (macBytes dev.macAddr)) (buf.data + 14) 4 dev.ipAddr.toNat
  { buf with block := store m (buf.data + 24) 4 ip.toNat, len := arpHeaderSize }

def arpRequest (env : NetEnv) (h : Host) (ip : Ipv4Addr) (dev : Nat) : Host × Int :=
  match env.arpBlock with
  | none => (h, -1)
  | some block => ethernetOutput h (arpPacket block (h.devs dev) ip) dev ethMacBroadcast ethPArp

/-- `arp_resolve`.  Nothing sets `arp_pending.completed`, so the loop waits until the time is over. -/
def arpResolve (env : NetEnv) (h : Host) (dev : Nat) (ip : Ipv4Addr) : Host × Option Mac :=
  match arpCacheLookup h.arp ip env.now with
  | (arp, some mac) => ({ h with arp := arp }, some mac)
  | (arp, none) =>
    let h := (arpRequest env { h with arp := arp } ip dev).1
    let heard := env.heard.foldl (fun c e => arpCacheAdd c e.1 e.2.1 e.2.2) h.arp
    let found := arpCacheLookup heard ip env.later
    ({ h with arp := found.1 }, found.2)

/-! ## IPv4 -/

/-- The words of a checksum, added up in 32 bits; an odd last byte counts as a word. -/
def sumWords (m : Mem) : Nat → Nat → Nat → Nat
  | 0, _, sum => sum
  | 1, a, sum => u32 (sum + (m a).toNat)
  | n + 2, a, sum => sumWords m n (a + 2) (u32 (sum + load m a 2))

/-- The carries added back in, for as long as there are any.  Three rounds are enough for 32 bits. -/
def foldCarry : Nat → Nat → Nat
  | 0, sum => sum
  | n + 1, sum => if sum / 65536 = 0 then sum else foldCarry n (sum % 65536 + sum / 65536)

def checksum (m : Mem) (a len : Nat) : Nat := 65535 - foldCarry 3 (sumWords m len a 0)

def ipv4Checksum (m : Mem) (a len : Nat) : Nat := checksum m a len

def icmpChecksum (m : Mem) (a len : Nat) : Nat := checksum m a len

def isLoopback (addr : Ipv4Addr) : Bool := decide (octet addr 0 = 127#8)

def ipv4Header (buf : NetBuf) (id protocol : Nat) (src dst : Ipv4Addr) : NetBuf :=
  let p := buf.data
  let m := fill buf.block p ipv4HeaderMin 0#8
  let m := store (store (store m p 1 0x45) (p + 2) 2 (ntohs (u16 buf.len))) (p + 4) 2 (ntohs id)
  let m := store (store (store (store m (p + 8) 1 64) (p + 9) 1 protocol) (p + 12) 4 src.toNat) (p + 16) 4 dst.toNat
  { buf with block := store m (p + 10) 2 (ipv4Checksum m p 20) }

/-- The source address that `ipv4_output` puts into the header; a route without a device gives none. -/
def ipv4Source (h : Host) (route : Route) (src : Ipv4Addr) : Option Ipv4Addr :=
  if src ≠ 0#32 then some src
  else if route.src ≠ 0#32 then some route.src
  else if route.dev ≠ 0 then some (h.devs route.dev).ipAddr
  else none

def nextHop (route : Route) (dest : Ipv4Addr) : Ipv4Addr := if route.gateway ≠ 0#32 then route.gateway else dest

def ipv4Route (routes : List Route) (dest : Ipv4Addr) : Option Route :=
  match ipv4RouteLookup routes dest with
  | some route => some route
  | none => ipv4RouteGetDefault routes

/-- The last part of `ipv4_output`: to the next hop that ARP finds, or to the device itself. -/
def ipv4Transmit (env : NetEnv) (h : Host) (buf : NetBuf) (route : Route) (dest : Ipv4Addr) : Host × Int :=
  if isLoopback dest = true then ethernetOutput h buf route.dev (h.devs route.dev).macAddr ethPIp
  else
    match arpResolve env h route.dev (nextHop route dest) with
    | (h, some mac) => ethernetOutput h buf route.dev mac ethPIp
    | (h, none) => (h, -1)

def ipv4Output (env : NetEnv) (h : Host) (buf : NetBuf) (dest src : Ipv4Addr) (protocol : Nat) : Host × Int :=
  match ipv4Route h.routes dest with
  | none => (h, -1)
  | some route =>
    let h := { h with idCounter := u16 (h.idCounter + 1) }
    match ipv4Source h route src with
    | none => (h, -1)
    | some source =>
      ipv4Transmit env h (ipv4Header (buf.reserve ipv4HeaderMin) h.idCounter protocol source dest) route dest

/-! ## ICMP and UDP -/

def icmpOutput (env : NetEnv) (h : Host) (buf : NetBuf) (dest src : Ipv4Addr) (type code : Nat) : Host × Int :=
  let buf := ((buf.setField 0 1 type).setField 1 1 code).setField 2 2 0
  ipv4Output env h (buf.setField 2 2 (icmpChecksum buf.block buf.data buf.len)) dest src ipProtoIcmp

def udpPacket (buf : NetBuf) (destPort srcPort : Nat) : NetBuf :=
  let buf := buf.reserve udpHeaderSize
  let buf := ((buf.setField 0 2 (ntohs srcPort)).setField 2 2 (ntohs destPort)).setField 4 2
    (ntohs (u16 (buf.len + udpHeaderSize)))
  { buf.setField 6 2 0 with len := u32 (buf.len + udpHeaderSize) }

def udpOutput (env : NetEnv) (h : Host) (buf : NetBuf) (dest src : Ipv4Addr) (destPort srcPort : Nat) : Host × Int :=
  ipv4Output env h (udpPacket buf destPort srcPort) dest src ipProtoUdp

/-! ## What the layers put into a frame -/

@[simp] theorem NetBuf.reserve_len (buf : NetBuf) (n : Nat) : (buf.reserve n).len = buf.len := by
  unfold reserve
  split <;> rfl

section
variable (buf : NetBuf) (srcMac dstMac : Mac) (type : Nat)
include buf srcMac dstMac type

theorem ethFrame_len : (ethFrame buf srcMac dstMac type).len = max buf.len 50 := by
  have hlen : (ethHeader (buf.reserve ethHlen) dstMac srcMac type).len = buf.len := NetBuf.reserve_len buf ethHlen
  unfold ethFrame ethPad
  rw [hlen]
  unfold ethMinFrame ethHlen
  split
  · dsimp only
    omega
  · rw [show (ethHeader (buf.reserve 14) dstMac srcMac type).len = buf.len from hlen]
    omega

theorem ethFrame_pad {i : Nat} (hlen : buf.len ≤ i) (hi : i < 50) : (ethFrame buf srcMac dstMac type).byte i = 0#8 := by
  have hheader : (ethHeader (buf.reserve ethHlen) dstMac srcMac type).len = buf.len := NetBuf.reserve_len buf ethHlen
  unfold ethFrame ethPad NetBuf.byte
  rw [hheader]
  unfold ethMinFrame
  rw [if_pos (by unfold ethHlen; omega)]
  dsimp only
  unfold fill
  rw [if_pos (by unfold ethHlen; omega)]

theorem ethFrame_byte {i : Nat} (hlen : i < buf.len) :
    (ethFrame buf srcMac dstMac type).byte i = (ethHeader (buf.reserve ethHlen) dstMac srcMac type).byte i := by
  have hheader : (ethHeader (buf.reserve ethHlen) dstMac srcMac type).len = buf.len := NetBuf.reserve_len buf ethHlen
  unfold ethFrame ethPad
  split
  · unfold NetBuf.byte
    dsimp only
    rw [fill_apart _ (by omega)]
  · rfl

end

theorem ethHeader_type (buf : NetBuf) (dstMac srcMac : Mac) (type : Nat) {i : Nat} (hi : i < 2) :
    (ethHeader buf dstMac srcMac type).byte (12 + i) = BitVec.ofNat 8 (ntohs type / 256 ^ i) := by
  unfold ethHeader NetBuf.byte
  dsimp only
  unfold store
  rw [if_pos (by omega), show buf.data + (12 + i) - (buf.data + 12) = i by omega]

theorem arpFrame_type (block : Mem) (dev : NetDevice) (ip : Ipv4Addr) (srcMac dstMac : Mac) :
    (ethFrame (arpPacket block dev ip) srcMac dstMac ethPArp).byte 13 = 6#8 := by
  rw [ethFrame_byte _ _ _ _ (show 13 < 28 by omega), ethHeader_type _ _ _ _ (show 1 < 2 by omega)]
  decide

/-- The frames that a call hands to the drivers, when it changes nothing else than the ARP cache and the counter of
packets. -/
structure Sends (h h' : Host) (frames : List (Nat × Frame)) : Prop where
  devs : h'.devs = h.devs
  ethProtocols : h'.ethProtocols = h.ethProtocols
  ipv4Protocols : h'.ipv4Protocols = h.ipv4Protocols
  udpHandlers : h'.udpHandlers = h.udpHandlers
  routes : h'.routes = h.routes
  ping : h'.ping = h.ping
  clients : h'.clients = h.clients
  sent : h'.sent = h.sent ++ frames
  calls : h'.calls = h.calls
  notified : h'.notified = h.notified

theorem Sends.nothing (h : Host) : Sends h h [] := ⟨rfl, rfl, rfl, rfl, rfl, rfl, rfl, by simp, rfl, rfl⟩

theorem Sends.trans {h h' h'' : Host} {frames frames' : List (Nat × Frame)} (one : Sends h h' frames)
    (two : Sends h' h'' frames') : Sends h h'' (frames ++ frames') where
  devs := two.devs.trans one.devs
  ethProtocols := two.ethProtocols.trans one.ethProtocols
  ipv4Protocols := two.ipv4Protocols.trans one.ipv4Protocols
  udpHandlers := two.udpHandlers.trans one.udpHandlers
  routes := two.routes.trans one.routes
  ping := two.ping.trans one.ping
  clients := two.clients.trans one.clients
  sent := by rw [two.sent, one.sent, List.append_assoc]
  calls := two.calls.trans one.calls
  notified := two.notified.trans one.notified

def IsArp (frame : Frame) : Prop :=
  ∃ block dev ip srcMac, frame = (ethFrame (arpPacket block dev ip) srcMac ethMacBroadcast ethPArp).frame

def IsIpv4 (buf : NetBuf) (dest : Ipv4Addr) (protocol : Nat) (frame : Frame) : Prop :=
  ∃ id source srcMac dstMac,
    frame = (ethFrame (ipv4Header (buf.reserve ipv4HeaderMin) id protocol source dest) srcMac dstMac ethPIp).frame

theorem ethernetOutput_sends (h : Host) (buf : NetBuf) (dev : Nat) (dstMac : Mac) (type : Nat) :
    ∃ frames, Sends h (ethernetOutput h buf dev dstMac type).1 frames ∧
      ∀ e ∈ frames, e.2 = (ethFrame buf (h.devs dev).macAddr dstMac type).frame := by
  unfold ethernetOutput
  split
  · exact ⟨[], Sends.nothing h, by simp⟩
  · exact ⟨[_], ⟨rfl, rfl, rfl, rfl, rfl, rfl, rfl, rfl, rfl, rfl⟩, by simp⟩

theorem arpResolve_sends (env : NetEnv) (h : Host) (dev : Nat) (ip : Ipv4Addr) :
    ∃ frames, Sends h (arpResolve env h dev ip).1 frames ∧ ∀ e ∈ frames, IsArp e.2 := by
  unfold arpResolve
  rcases arpCacheLookup h.arp ip env.now with ⟨arp, _ | mac⟩
  swap
  · exact ⟨[], ⟨rfl, rfl, rfl, rfl, rfl, rfl, rfl, by simp, rfl, rfl⟩, by simp⟩
  unfold arpRequest
  cases env.arpBlock with
  | none => exact ⟨[], ⟨rfl, rfl, rfl, rfl, rfl, rfl, rfl, by simp, rfl, rfl⟩, by simp⟩
  | some block =>
    obtain ⟨frames, hsends, hframes⟩ := ethernetOutput_sends { h with arp := arp }
      (arpPacket block (h.devs dev) ip) dev ethMacBroadcast ethPArp
    exact ⟨frames, ⟨hsends.devs, hsends.ethProtocols, hsends.ipv4Protocols, hsends.udpHandlers, hsends.routes,
      hsends.ping, hsends.clients, hsends.sent, hsends.calls, hsends.notified⟩,
      fun e he => ⟨_, _, _, _, hframes e he⟩⟩

theorem ipv4Transmit_sends (env : NetEnv) (h : Host) (buf : NetBuf) (route : Route) (dest : Ipv4Addr) :
    ∃ frames, Sends h (ipv4Transmit env h buf route dest).1 frames ∧
      ∀ e ∈ frames, IsArp e.2 ∨ ∃ srcMac dstMac, e.2 = (ethFrame buf srcMac dstMac ethPIp).frame := by
  unfold ipv4Transmit
  by_cases hloop : isLoopback dest = true
  · rw [if_pos hloop]
    obtain ⟨frames, hsends, hframes⟩ := ethernetOutput_sends h buf route.dev (h.devs route.dev).macAddr ethPIp
    exact ⟨frames, hsends, fun e he => .inr ⟨_, _, hframes e he⟩⟩
  rw [if_neg hloop]
  obtain ⟨asked, hasked, harp⟩ := arpResolve_sends env h route.dev (nextHop route dest)
  revert hasked
  rcases arpResolve env h route.dev (nextHop route dest) with ⟨h', _ | mac⟩
  · intro hasked
    exact ⟨asked, hasked, fun e he => .inl (harp e he)⟩
  intro hasked
  obtain ⟨frames, hsends, hframes⟩ := ethernetOutput_sends h' buf route.dev mac ethPIp
  refine ⟨asked ++ frames, hasked.trans hsends, fun e he => ?_⟩
  rcases List.mem_append.1 he with he | he
  · exact .inl (harp e he)
  · exact .inr ⟨_, _, hframes e he⟩

/-- **What `ipv4_output` sends**: the packet, if anything, and an ARP request before it. -/
theorem ipv4Output_sends (env : NetEnv) (h : Host) (buf : NetBuf) (dest src : Ipv4Addr) (protocol : Nat) :
    ∃ frames, Sends h (ipv4Output env h buf dest src protocol).1 frames ∧
      ∀ e ∈ frames, IsArp e.2 ∨ IsIpv4 buf dest protocol e.2 := by
  have hcounted : Sends h { h with idCounter := u16 (h.idCounter + 1) } [] :=
    ⟨rfl, rfl, rfl, rfl, rfl, rfl, rfl, by simp, rfl, rfl⟩
  unfold ipv4Output
  cases ipv4Route h.routes dest with
  | none => exact ⟨[], Sends.nothing h, by simp⟩
  | some route =>
    dsimp only
    cases ipv4Source { h with idCounter := u16 (h.idCounter + 1) } route src with
    | none => exact ⟨[], hcounted, by simp⟩
    | some source =>
      obtain ⟨frames, hsends, hframes⟩ := ipv4Transmit_sends env { h with idCounter := u16 (h.idCounter + 1) }
        (ipv4Header (buf.reserve ipv4HeaderMin) (u16 (h.idCounter + 1)) protocol source dest) route dest
      refine ⟨[] ++ frames, hcounted.trans hsends, fun e he => ?_⟩
      rcases hframes e he with harp | ⟨srcMac, dstMac, hframe⟩
      · exact .inl harp
      · exact .inr ⟨_, _, _, _, hframe⟩

end Net
end OS64
