import Nonsense.Entityd.Fabric

/-!
# What the system takes

`ip` is a program of its own, and what it takes is an assumption.  An action is `Taken` if it
is of a form that `ip` and the kernel are relied on to take: with names of at most fifteen
characters for the links, addresses of four numbers in a /24, and the own namespace mounted
where the others look for it.  Where a route is added, its gateway must be reached as well
(`Net.Via`).

`Plan.Heeded` is the assumption: wherever the processes have come to, the system does what is
taken, and what is seen of it is what a `Net` comes to.  The processes of a plan ask for no
more than that (`Plan.Spelled.taken_of_mem`), where its names and its networks are of this form
(`Plan.Spelled`).
-/

namespace Nonsense

namespace Entityd

/-- An entity with names for its links, which have at most fifteen characters. -/
structure IsName (e : String) : Prop where
  nonempty : e ≠ ""
  /-- Nothing in it means anything to the shell. -/
  plain : ∀ c ∈ e.toList, c.isAlphanum ∨ c = '-' ∨ c = '_'
  short : e.length ≤ 12

/-- The first three numbers of an address that a link may have. -/
def IsSubnet (p : String) : Prop :=
  ∃ a b c : ℕ, 0 < a ∧ a < 224 ∧ a ≠ 127 ∧ b < 256 ∧ c < 256 ∧
    p = toString a ++ "." ++ toString b ++ "." ++ toString c

/-- A command that sets something up, with texts that `ip` takes. -/
inductive Ip.Taken : Ip → Prop
  | veth {e : String} : IsName e → Taken (.linkAddVeth (nu e) (nd e))
  | bridge {e : String} : IsName e → Taken (.linkAddBridge (nb e))
  | up {e : String} (s : Slot) : IsName e → Taken (.linkSetUp (s.link e))
  -- what is called `nb-` is a bridge, and is put into none
  | master {e u : String} {s : Slot} : IsName e → s ≠ .nb → IsName u →
      Taken (.linkSetMaster (s.link e) (nb u))
  | move {e u : String} : IsName e → IsName u → Taken (.linkSetNetns (nd e) u)
  | address {e p : String} {n : ℕ} (s : Slot) : IsName e → IsSubnet p → 0 < n → n < 255 →
      Taken (.addrAdd (host p n ++ "/24") (s.link e))
  | default {p : String} {n : ℕ} : IsSubnet p → 0 < n → n < 255 →
      Taken (.routeAdd "default" (host p n))
  | route {p q : String} {n : ℕ} : IsSubnet p → IsSubnet q → 0 < n → n < 255 →
      Taken (.routeAdd (q ++ ".0/24") (host p n))

/-- An action that sets something up; no process looks at what comes of the unmounting. -/
inductive Action.Taken : Action → Prop
  | here {c : Ip} : c.Taken → Taken (.system (here c))
  | inside {u : String} {c : Ip} : IsName u → c.Taken → Taken (.system (inside u c))
  | createDirectories : Taken (.createDirectories "/var/run/netns")
  | openFile {e : String} : IsName e → Taken (.openFile (netnsPath (netnsName e)))
  | mount {e : String} : IsName e → Taken (.mount (netnsPath (netnsName e)))
  | umount {e : String} : IsName e → Taken (.umount (netnsPath (netnsName e)))
  | unshare : Taken .unshare

/-- The gateway of a route to `network` is reached over a link. -/
structure Net.Via {ν : Type} (net : Net ν) (ns : ν) (network gateway : String) : Prop where
  onLink : net.OnLink ns gateway
  /-- It is not an address of the namespace itself. -/
  foreign : ∀ link l, net.links ns link = some l → ∀ a ∈ l.addresses, ∀ mask,
    a ≠ gateway ++ "/" ++ mask
  /-- The network is not that of a link. -/
  apart : ∀ link l, net.links ns link = some l → ∀ p k, host p k ++ "/24" ∈ l.addresses →
    network ≠ p ++ ".0/24"
  /-- No other route but the default one leads to the gateway. -/
  direct : ∀ network' ≠ "default", (net.routes ns network').isSome →
    ∃ p, network' = p ++ ".0/24" ∧ ∀ n, gateway ≠ host p n

namespace Plan

variable {P : Plan} {e u : String} {x : Part} {a : Action} {hs : List (String × String)}

/-- The names and the networks of the plan are of the form that is taken. -/
structure Spelled (P : Plan) : Prop where
  name : ∀ e x, P.part e = some x → IsName e
  network : ∀ e u net p, P.part e = some (.switch u net p) → IsSubnet p ∧ net = p ++ ".0/24"
  idle : ∀ e, ∀ a ∈ P.program e, a.idle = true → a.Taken

section

variable {ν σ : Type} [DecidableEq ν]

/-- The processes on a system, where `sys ns a` is what comes of `a` in the namespace `ns`, and
nothing where the process is told that it has failed. -/
def processes (P : Plan) (own : String → ν) (sys : ν → Action → σ → Option σ) :
    Threads String Action σ := (P.threads own).on fun e => sys (own e)

/-- **The system does what is taken**, wherever the processes have come to from `s₀`: an
action that is `Taken`, over a gateway that is reached if it adds a route, does to what is
seen of the system what it does to a `Net`. -/
structure Heeded (P : Plan) (own : String → ν) (sys : ν → Action → σ → Option σ)
    (view : σ → Net ν) (s₀ : σ) : Prop where
  acts : ∀ s e a net, (P.processes own sys).Reaches (Threads.At.start String s₀) s →
    (P.processes own sys).Ready s e a → a.Taken →
    (∀ netns network gateway, a = .system ⟨netns, .routeAdd network gateway⟩ →
      (view s.state).Via ((P.site e).within own netns) network gateway) →
    (view s.state).apply (own e) a = some net →
    ∃ state, sys (own e) a s.state = some state ∧ view state = net

end

namespace Spelled

theorem uplink (h : P.Spelled) (hu : uplinkBy P.part e = some u) : IsName u := by
  obtain ⟨y, hy⟩ := exists_part hu
  exact h.name u y hy

/-- No two switches have the same /24. -/
theorem eq_of_subnet (h : P.Spelled) {e' u u' net net' p : String}
    (he : P.part e = some (.switch u net p)) (he' : P.part e' = some (.switch u' net' p)) :
    e = e' := by
  obtain ⟨-, rfl⟩ := h.network e u net p he
  obtain ⟨-, rfl⟩ := h.network e' u' net' p he'
  exact P.distinct e e' u u' _ p p he he'

theorem taken_of_deed (h : P.Spelled) (hx : P.part e = some x)
    (hclimb : ∀ u, x.uplink = some u → Climb P.part u hs) (ha : x.Deed e hs a) : a.Taken := by
  have he : IsName e := h.name e x hx
  have huplink : ∀ u, x.uplink = some u → IsName u := fun u hu =>
    h.uplink (by rw [uplinkBy, hx, Option.bind_some, hu])
  have hswitch : ∀ u net p, x = .switch u net p → IsSubnet p := by
    rintro u net p rfl
    exact (h.network e u net p hx).1
  have hclient : ∀ u p, x = .client u p → IsSubnet p := by
    rintro u p rfl
    obtain ⟨v, net, hv⟩ := P.port e u p hx
    exact (h.network u v net p hv).1
  cases ha with
  | pair => exact .here (.veth he)
  | pairUp => exact .here (.up .nu he)
  | move hu => exact .here (.move he (huplink _ hu))
  | farUp hu => exact .inside (huplink _ hu) (.up .nd he)
  | bridge => exact .here (.bridge he)
  | bridgeUp => exact .here (.up .nb he)
  | bridged => exact .here (.master (s := .nu) he (by decide) he)
  | @farAddress u net p =>
    exact .inside (huplink u rfl) (.address .nd he (hswitch u net p rfl) (by decide) (by decide))
  | @route u net p hop hhop =>
    -- over the bridge of a switch above
    obtain ⟨v, net', hv, -⟩ := (hclimb u rfl).exists_switch hhop
    obtain ⟨hp, rfl⟩ := h.network e u net p hx
    exact .inside (h.uplink (by rw [uplinkBy, hv]; rfl))
      (.route (h.network v _ _ _ hv).1 hp (by decide) (by decide))
  | @bridgeAddress u net p =>
    exact .here (.address .nb he (hswitch u net p rfl) (by decide) (by decide))
  | @switchDefault u net p => exact .here (.default (hswitch u net p rfl) (by decide) (by decide))
  | @port u p => exact .inside (huplink u rfl) (.master (s := .nd) he (by decide) (huplink u rfl))
  | @address u p => exact .here (.address .nu he (hclient u p rfl) (by decide) (by decide))
  | @clientDefault u p => exact .here (.default (hclient u p rfl) (by decide) (by decide))

/-- **All that a process asks for is taken.** -/
theorem taken_of_mem (h : P.Spelled) (ha : a ∈ P.program e) : a.Taken := by
  cases hx : P.part e with
  | none =>
    rw [P.idle e hx] at ha
    cases ha
  | some x =>
    obtain ⟨entry, hs, hentry, hclimb, hprogram⟩ := P.does e x hx
    have hmem := ha
    rw [hprogram, List.mem_append, List.mem_append] at hmem
    rcases hmem with hmem | hmem | hmem
    · exact h.idle e a ha (hentry a hmem)
    · have he : IsName e := h.name e x hx
      simp only [mounting, List.mem_cons, List.not_mem_nil, or_false] at hmem
      rcases hmem with rfl | rfl | rfl | rfl
      · exact .createDirectories
      · exact .umount he
      · exact .openFile he
      · exact .mount he
    · exact h.taken_of_deed hx hclimb (Part.deed_of_mem hmem)

end Spelled

end Plan

end Entityd

end Nonsense
