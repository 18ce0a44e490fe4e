import Mouser.Lib.SortedUnion
import Mouser.Lib.Utf8
import Mouser.Net.Address
import Mathlib.Logic.Function.Basic

/-!
# Discovered peers

A browse of the network finds peers in parts: one event carries the addresses of one family or of
one interface, and the same peer is found again and again. `PeerRegistry.apply` keeps the union of
what was found of an instance since it was last removed, sorted, so that the addresses do not depend
on the order in which they arrive. Two functions rank them for a dialer, one for the first address
to try and one for all of them in order.
-/

namespace Mouser

namespace Discovery

open SortedUnion

/-- The service type of the advertisements. -/
def serviceType : String := "_mouser._udp.local."

structure PeerAdvert where
  id : String
  name : String
  os : String
  ver : String
  iport : UInt16
  bport : UInt16
  caps : String
  role : String
  dw : UInt16
  dh : UInt16
  addrs : List IpAddr
deriving DecidableEq

namespace PeerAdvert

/-- The display name and the first eight bytes of the id, or all of it where it cannot be cut
there. -/
def instanceName (advert : PeerAdvert) : String :=
  let short :=
    match Utf8.splitAt advert.id.toList 8 with
    | some (before, _) => String.ofList before
    | none => advert.id
  advert.name ++ " (" ++ short ++ ")"

/-- The name of the instance, under which the registry keeps it. -/
def fullname (advert : PeerAdvert) : String := advert.instanceName ++ "." ++ serviceType

end PeerAdvert

inductive PeerEvent where
  | found (advert : PeerAdvert)
  | removed (fullname : String)
deriving DecidableEq

/-- The instance that an event is about. -/
def PeerEvent.fullname : PeerEvent → String
  | found advert => advert.fullname
  | removed fullname => fullname

structure PeerRegistry where
  peers : String → Option PeerAdvert
  version : UInt64

namespace PeerRegistry

def new : PeerRegistry := ⟨fun _ => none, 0⟩

/-- A found advertisement, with the addresses that were known. -/
def merged (prev : Option PeerAdvert) (advert : PeerAdvert) : PeerAdvert :=
  let addrs :=
    match prev with
    | some prev => addMissing advert.addrs prev.addrs
    | none => advert.addrs
  { advert with addrs := sort IpAddr.sortKey addrs }

/-- `apply`, and whether the peers have changed. -/
def apply (r : PeerRegistry) (event : PeerEvent) : PeerRegistry × Bool :=
  let (peers, changed) :=
    match event with
    | .found advert =>
      let key := advert.fullname
      let advert := merged (r.peers key) advert
      (Function.update r.peers key (some advert), decide (r.peers key ≠ some advert))
    | .removed fullname =>
      (Function.update r.peers fullname none, (r.peers fullname).isSome)
  (⟨peers, if changed then r.version + 1 else r.version⟩, changed)

/-- `run_registry`, over the events of a browse. -/
def run (r : PeerRegistry) (events : List PeerEvent) : PeerRegistry :=
  events.foldl (fun r event => (r.apply event).1) r

end PeerRegistry

/-! ## Ranking the addresses -/

/-- An IPv4 address that another host can reach. -/
def routableV4 : IpAddr → Bool
  | .v4 a => !a.isLoopback && !a.isLinkLocal && !a.isUnspecified
  | .v6 _ => false

/-- An IPv6 address that another host can reach. -/
def routableV6 : IpAddr → Bool
  | .v4 _ => false
  | .v6 a => !a.isLoopback && !a.isUnicastLinkLocal && !a.isUnspecified

def orderedDialableIps (addrs : List IpAddr) : List IpAddr :=
  addrs.filter routableV4 ++ addrs.filter routableV6

def bestDialableIp (addrs : List IpAddr) : Option IpAddr :=
  match addrs.find? routableV4 with
  | some ip => some ip
  | none =>
    match addrs.find? routableV6 with
    | some ip => some ip
    | none => addrs.head?

/-- **The two rankings agree.** The address to dial first is the first of those to dial. -/
theorem bestDialableIp_eq {addrs : List IpAddr} (h : orderedDialableIps addrs ≠ []) :
    bestDialableIp addrs = (orderedDialableIps addrs).head? := by
  unfold bestDialableIp orderedDialableIps at *
  rw [List.head?_append, List.head?_filter, List.head?_filter]
  cases hv4 : addrs.find? routableV4 with
  | some ip => rfl
  | none =>
    cases hv6 : addrs.find? routableV6 with
    | some ip => rfl
    | none =>
      rw [List.find?_eq_none] at hv4 hv6
      rw [List.filter_eq_nil_iff.2 hv4, List.filter_eq_nil_iff.2 hv6] at h
      exact absurd rfl h

structure SocketAddr where
  ip : IpAddr
  port : UInt16
deriving DecidableEq

/-- The best address at a port that was advertised; 0 is none. -/
def bestSocketAddr (port : UInt16) (addrs : List IpAddr) : Option SocketAddr :=
  if port = 0 then none else (bestDialableIp addrs).map fun ip => ⟨ip, port⟩

def peerSocketAddr (advert : PeerAdvert) : Option SocketAddr :=
  bestSocketAddr advert.iport advert.addrs

def peerBulkSocketAddr (advert : PeerAdvert) : Option SocketAddr :=
  bestSocketAddr advert.bport advert.addrs

/-- All addresses at a port that was advertised. -/
def orderedSocketAddrs (port : UInt16) (addrs : List IpAddr) : List SocketAddr :=
  if port = 0 then [] else (orderedDialableIps addrs).map fun ip => ⟨ip, port⟩

def peerSocketAddrs (advert : PeerAdvert) : List SocketAddr :=
  orderedSocketAddrs advert.iport advert.addrs

def peerBulkSocketAddrs (advert : PeerAdvert) : List SocketAddr :=
  orderedSocketAddrs advert.bport advert.addrs

/-- The socket address that is dialed first is the first of them, at either port. -/
theorem bestSocketAddr_eq {port : UInt16} {addrs : List IpAddr}
    (h : orderedSocketAddrs port addrs ≠ []) :
    bestSocketAddr port addrs = (orderedSocketAddrs port addrs).head? := by
  unfold bestSocketAddr orderedSocketAddrs at *
  split
  · next hport =>
    rw [if_pos hport] at h
    exact absurd rfl h
  · next hport =>
    rw [if_neg hport, ne_eq, List.map_eq_nil_iff] at h
    rw [bestDialableIp_eq h, List.head?_map]

/-! ## What the registry holds -/

/-- The advertisements of an instance that were found since it was last removed. -/
def foundSince (fullname : String) (events : List PeerEvent) : List PeerAdvert :=
  events.foldl (fun found event =>
    if event.fullname = fullname then
      match event with
      | .found advert => found ++ [advert]
      | .removed _ => []
    else found) []

/-- The sorted union of the addresses that were found, without duplicates. -/
structure IsUnion (addrs : List IpAddr) (found : List PeerAdvert) : Prop where
  ascending : Ascending IpAddr.sortKey addrs
  mem_iff : ∀ ip, ip ∈ addrs ↔ ∃ advert ∈ found, ip ∈ advert.addrs

/-- There is one union, in whatever order its parts were found. -/
theorem IsUnion.eq {addrs addrs' : List IpAddr} {found found' : List PeerAdvert}
    (h : IsUnion addrs found) (h' : IsUnion addrs' found') (hsame : found.Perm found') :
    addrs = addrs' := by
  refine h.ascending.ext h'.ascending fun ip => ?_
  rw [h.mem_iff, h'.mem_iff]
  simp only [hsame.mem_iff]

/-- IPv4 comes before IPv6. -/
theorem IsUnion.v4_first {addrs : List IpAddr} {found : List PeerAdvert}
    (h : IsUnion addrs found) :
    addrs.Pairwise fun a b => a.isIpv6 = true → b.isIpv6 = true := by
  refine h.ascending.imp fun {a b} hlt hv6 => ?_
  rcases Prod.Lex.toLex_lt_toLex.1 hlt with hfamily | ⟨hfamily, -⟩
  · exact Bool.eq_true_of_true_le (hv6 ▸ hfamily.le)
  · exact hfamily.symm.trans hv6

namespace PeerRegistry

variable {r : PeerRegistry}

theorem addrs_merged_mem {prev : Option PeerAdvert} {advert : PeerAdvert} {ip : IpAddr} :
    ip ∈ (merged prev advert).addrs ↔ ip ∈ advert.addrs ∨ ∃ p, prev = some p ∧ ip ∈ p.addrs := by
  cases prev <;> simp [merged, mem_addMissing]

theorem ascending_merged {advert : PeerAdvert} (h : advert.addrs.Nodup)
    (prev : Option PeerAdvert) : Ascending IpAddr.sortKey (merged prev advert).addrs := by
  refine ascending_sort IpAddr.sortKey_injective ?_
  cases prev with
  | none => exact h
  | some prev => exact nodup_addMissing h prev.addrs

/-- **What an event does to the peers.** -/
theorem peers_apply (r : PeerRegistry) (event : PeerEvent) (fullname : String) :
    (r.apply event).1.peers fullname =
      if event.fullname = fullname then
        match event with
        | .found advert => some (merged (r.peers fullname) advert)
        | .removed _ => none
      else r.peers fullname := by
  by_cases h : event.fullname = fullname
  · subst h
    rw [if_pos rfl]
    cases event with
    | found advert => exact Function.update_self ..
    | removed name => exact Function.update_self ..
  · rw [if_neg h]
    cases event with
    | found advert => exact Function.update_of_ne (Ne.symm h) ..
    | removed name => exact Function.update_of_ne (Ne.symm h) ..

/-- A change is reported exactly when the stored advertisement changes. -/
theorem changed_iff (r : PeerRegistry) (event : PeerEvent) :
    (r.apply event).2 = true ↔
      (r.apply event).1.peers event.fullname ≠ r.peers event.fullname := by
  rw [peers_apply, if_pos rfl]
  cases event with
  | found advert => exact decide_eq_true_iff.trans ne_comm
  | removed name => exact Option.isSome_iff_ne_none.trans ne_comm

/-- What the registry holds of an instance: nothing, or the union of what was found. -/
def Holds (r : PeerRegistry) (fullname : String) (found : List PeerAdvert) : Prop :=
  match r.peers fullname with
  | none => found = []
  | some advert => found ≠ [] ∧ IsUnion advert.addrs found

theorem holds_none {fullname : String} {found : List PeerAdvert}
    (hpeers : r.peers fullname = none) : r.Holds fullname found ↔ found = [] := by
  rw [Holds, hpeers]

theorem holds_some {fullname : String} {found : List PeerAdvert} {advert : PeerAdvert}
    (hpeers : r.peers fullname = some advert) :
    r.Holds fullname found ↔ found ≠ [] ∧ IsUnion advert.addrs found := by
  rw [Holds, hpeers]

/-- Where the same was found, in whatever order, the addresses are the same. -/
theorem Holds.addrs_eq {r' : PeerRegistry} {fullname : String} {found found' : List PeerAdvert}
    (h : r.Holds fullname found) (h' : r'.Holds fullname found') (hsame : found.Perm found') :
    (r.peers fullname).map PeerAdvert.addrs = (r'.peers fullname).map PeerAdvert.addrs := by
  cases hpeers : r.peers fullname with
  | none =>
    rw [(holds_none hpeers).1 h] at hsame
    rw [hsame.symm.eq_nil] at h'
    cases hpeers' : r'.peers fullname with
    | none => rfl
    | some advert => exact absurd rfl ((holds_some hpeers').1 h').1
  | some advert =>
    obtain ⟨hne, hunion⟩ := (holds_some hpeers).1 h
    cases hpeers' : r'.peers fullname with
    | none =>
      rw [(holds_none hpeers').1 h'] at hsame
      exact absurd hsame.eq_nil hne
    | some advert' =>
      obtain ⟨-, hunion'⟩ := (holds_some hpeers').1 h'
      exact congrArg some (hunion.eq hunion' hsame)

/-- **One advertisement more.** -/
theorem Holds.found {fullname : String} {found : List PeerAdvert} {advert : PeerAdvert}
    (h : r.Holds fullname found) (hnodup : advert.addrs.Nodup) :
    IsUnion (merged (r.peers fullname) advert).addrs (found ++ [advert]) := by
  refine ⟨ascending_merged hnodup _, fun ip => ?_⟩
  rw [addrs_merged_mem]
  cases hpeers : r.peers fullname with
  | none =>
    rw [(holds_none hpeers).1 h]
    simp
  | some prev =>
    obtain ⟨-, hunion⟩ := (holds_some hpeers).1 h
    simp [hunion.mem_iff, or_and_right, exists_or, or_comm]

theorem foundSince_concat (fullname : String) (events : List PeerEvent) (event : PeerEvent) :
    foundSince fullname (events ++ [event]) =
      if event.fullname = fullname then
        match event with
        | .found advert => foundSince fullname events ++ [advert]
        | .removed _ => []
      else foundSince fullname events := by
  rw [foundSince, List.foldl_concat, foundSince]

theorem run_concat (r : PeerRegistry) (events : List PeerEvent) (event : PeerEvent) :
    r.run (events ++ [event]) = ((r.run events).apply event).1 := List.foldl_concat ..

/-- **A run of events.** The registry holds the union of what was found of an instance since it was
last removed, whatever came of the others. -/
theorem holds_run {fullname : String} {events : List PeerEvent}
    (hnodup : ∀ advert ∈ foundSince fullname events, advert.addrs.Nodup) :
    (new.run events).Holds fullname (foundSince fullname events) := by
  induction events using List.reverseRecOn with
  | nil => exact (holds_none rfl).2 rfl
  | append_singleton events event ih =>
    have hpeers := peers_apply (new.run events) event fullname
    rw [run_concat]
    rw [foundSince_concat] at hnodup ⊢
    by_cases h : event.fullname = fullname
    · rw [if_pos h] at hpeers hnodup ⊢
      cases event with
      | found advert =>
        have hbefore := ih fun a ha => hnodup a (List.mem_append_left _ ha)
        refine (holds_some hpeers).2 ⟨List.append_ne_nil_of_right_ne_nil _ (by simp), ?_⟩
        exact hbefore.found (hnodup advert (List.mem_append_right _ (List.mem_singleton_self _)))
      | removed name => exact (holds_none hpeers).2 rfl
    · rw [if_neg h] at hpeers hnodup ⊢
      rw [Holds, hpeers]
      exact ih hnodup

end PeerRegistry

/-- A peer, as it is found with some of its addresses. -/
def minis (addrs : List IpAddr) : PeerAdvert where
  id := "abcdefghijklmnop"
  name := "MINIS"
  os := "windows"
  ver := "0.1.0"
  iport := 60040
  bport := 0
  caps := "keyboard,mouse,clipboard,files"
  role := "eligible"
  dw := 0
  dh := 0
  addrs

theorem foundSince_minis (addrs addrs' : List IpAddr) :
    foundSince (minis []).fullname [.found (minis addrs), .found (minis addrs')] =
      [minis addrs, minis addrs'] := by
  have hname : ∀ addrs, (minis addrs).fullname = (minis []).fullname := by
    intro addrs
    simp only [PeerAdvert.fullname, PeerAdvert.instanceName, minis]
  simp [foundSince, PeerEvent.fullname, hname]

/-- **Discovery does not depend on the order of its events.** The addresses of an instance are the
sorted union of what was found since it was last removed, IPv4 first. A change is reported exactly
when what is stored of an instance changes, and the address that is dialed first is the first of
those that can be dialed. -/
theorem discovery_merge {fullname : String} {events events' : List PeerEvent}
    (hsame : (foundSince fullname events).Perm (foundSince fullname events'))
    (hnodup : ∀ advert ∈ foundSince fullname events, advert.addrs.Nodup) :
    ((PeerRegistry.new.run events).peers fullname).map PeerAdvert.addrs =
        ((PeerRegistry.new.run events').peers fullname).map PeerAdvert.addrs ∧
      (∀ advert, (PeerRegistry.new.run events).peers fullname = some advert →
        (∀ ip, ip ∈ advert.addrs ↔ ∃ found ∈ foundSince fullname events, ip ∈ found.addrs) ∧
        advert.addrs.Nodup ∧
        (advert.addrs.Pairwise fun a b => a.sortKey < b.sortKey) ∧
        advert.addrs.Pairwise fun a b => a.isIpv6 = true → b.isIpv6 = true) ∧
      (∀ (r : PeerRegistry) (event : PeerEvent), (r.apply event).2 = true ↔
        (r.apply event).1.peers event.fullname ≠ r.peers event.fullname) ∧
      ∀ addrs : List IpAddr, orderedDialableIps addrs ≠ [] →
        bestDialableIp addrs = (orderedDialableIps addrs).head? := by
  have hnodup' : ∀ advert ∈ foundSince fullname events', advert.addrs.Nodup := by
    intro advert hmem
    exact hnodup advert (hsame.mem_iff.2 hmem)
  have hholds := PeerRegistry.holds_run hnodup
  have hholds' := PeerRegistry.holds_run hnodup'
  refine ⟨hholds.addrs_eq hholds' hsame, ?_, PeerRegistry.changed_iff,
    fun addrs => bestDialableIp_eq⟩
  intro advert hpeers
  obtain ⟨-, hunion⟩ := (PeerRegistry.holds_some hpeers).1 hholds
  exact ⟨hunion.mem_iff, hunion.ascending.nodup, hunion.ascending, hunion.v4_first⟩

theorem discovery_merge_twoFamilies :
    ((PeerRegistry.new.run [.found (minis [.v6 #v[0x2a00, 0, 0, 0, 0, 0, 0, 1]]),
        .found (minis [.v4 #v[192, 168, 1, 203]])]).peers (minis []).fullname).map
          PeerAdvert.addrs =
      ((PeerRegistry.new.run [.found (minis [.v4 #v[192, 168, 1, 203]]),
        .found (minis [.v6 #v[0x2a00, 0, 0, 0, 0, 0, 0, 1]])]).peers (minis []).fullname).map
          PeerAdvert.addrs := by
  refine (discovery_merge ?_ ?_).1
  · rw [foundSince_minis, foundSince_minis]
    exact .swap ..
  · rw [foundSince_minis]
    simp [minis]

end Discovery

end Mouser
