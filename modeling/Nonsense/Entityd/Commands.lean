import Nonsense.Entityd.Runnable
import Nonsense.Lib.Shell

/-!
# The commands as the shell reads them

The names and the addresses of a configuration are put into the commands as they are, and
the daemon has not looked at them.  A command is read as the words of its template just
if each of its words is inert (`Command.Inert`), and a word that is made of a literal and
of a name is inert just if the name is plain.

`Harmless tree name m` is what that comes to for everything that the process of `name` is
going to run: its own name and that of its uplink are plain, the /24 of its address (of
the address of its uplink, for a client) may lead a word, and so it goes for the switches
above it, if it is a switch itself, where its address is a word as it is.
-/

namespace Nonsense

namespace Entityd

open Config (Ascent uplinkName text isSwitch)
open Shell (Plain Leading inert_append_left inert_append_right)

variable {own name u p net : String} {tree m : Object} {ms : List Object} {r : NetworkRole}
  {component : Json} {parse : String → Option Json} {j : Json} {calls : List Call} {s : Ledger}

/-- The name of an entity as its process is given it: `execv` ends an argument at the
first NUL. -/
def argument (name : String) : String :=
  String.ofList (name.toList.takeWhile fun c => c ≠ Shell.nul)

/-! ### The words of a command -/

def Command.Inert (c : Command) : Prop := ∀ w ∈ c.words, Shell.Inert w

theorem Command.shellWords_iff {c : Command} :
    Shell.shellWords c.text = some c.words ↔ c.Inert :=
  Shell.shellWords_intercalate_iff

/-- The words that are not literals. -/
def Ip.names : Ip → List String
  | linkAddVeth link peer => [link, peer]
  | linkAddBridge link | linkDel link | linkSetUp link | linkSetDown link => [link]
  | linkSetMaster link bridge => [link, bridge]
  | linkSetNetns link entity => [link, netnsName entity]
  | addrAdd address link | addrDel address link => [address, link]
  | routeAdd network gateway => [network, gateway]
  | routeDel network => [network]

/-- What the templates themselves put into a command. -/
def literals : List String :=
  ["ip", "netns", "exec", "link", "add", "type", "veth", "peer", "bridge", "del", "set", "up", "down",
    "master", "addr", "dev", "route", "via", "default", "nonsense:", "nu-", "nd-", "nb-",
    ".1", ".2", ".3", ".1/24", ".2/24", ".3/24"]

theorem inert_literals : ∀ w ∈ literals, Shell.Inert w ∧ '[' ∉ w.toList ∧ ']' ∉ w.toList := by
  decide

theorem Ip.inert_iff (c : Ip) :
    (∀ w ∈ c.words, Shell.Inert w) ↔ ∀ w ∈ c.names, Shell.Inert w := by
  have hliterals := inert_literals
  simp only [literals, List.forall_mem_cons] at hliterals
  cases c <;> simp [Ip.words, Ip.names, hliterals]

/-- A name behind a literal. -/
theorem inert_behind {literal : String} (h : literal ∈ literals) :
    Shell.Inert (literal ++ name) ↔ Plain name :=
  inert_append_left (inert_literals _ h).1 (inert_literals _ h).2.1

theorem inert_netnsName : Shell.Inert (netnsName name) ↔ Plain name :=
  inert_behind (by decide)

theorem inert_nu : Shell.Inert (nu name) ↔ Plain name :=
  inert_behind (by decide)

theorem inert_nd : Shell.Inert (nd name) ↔ Plain name :=
  inert_behind (by decide)

theorem inert_nb : Shell.Inert (nb name) ↔ Plain name :=
  inert_behind (by decide)

theorem here_inert {c : Ip} : (here c).Inert ↔ ∀ w ∈ c.names, Shell.Inert w := by
  rw [← Ip.inert_iff]
  exact List.forall_mem_cons.trans (and_iff_right (inert_literals _ (by decide)).1)

theorem inside_inert {c : Ip} :
    (inside u c).Inert ↔ Plain u ∧ ∀ w ∈ c.names, Shell.Inert w := by
  have hliterals := inert_literals
  simp only [literals, List.forall_mem_cons] at hliterals
  rw [← Ip.inert_iff, ← inert_netnsName]
  simp [Command.Inert, Command.words, inside, hliterals]

/-- A /24 in front of a literal. -/
theorem inert_before {literal : String} (h : literal ∈ literals) :
    Shell.Inert (p ++ literal) ↔ Leading p :=
  inert_append_right (inert_literals _ h).1 (inert_literals _ h).2.2

/-- The hosts that are given out. -/
theorem inert_host {n : ℕ} (hn : n ∈ [1, 2, 3]) : Shell.Inert (host p n) ↔ Leading p := by
  have hend : ∀ n ∈ [1, 2, 3], "." ++ toString n ∈ literals := by decide
  rw [host, String.append_assoc, inert_before (hend n hn)]

theorem inert_host_masked {n : ℕ} (hn : n ∈ [1, 2, 3]) :
    Shell.Inert (host p n ++ "/24") ↔ Leading p := by
  have hend : ∀ n ∈ [1, 2, 3], "." ++ (toString n ++ "/24") ∈ literals := by decide
  rw [host, String.append_assoc, String.append_assoc, inert_before (hend n hn)]

/-! ### The commands of a setup -/

/-- An action that is no command, or one that is read as it is meant. -/
def Action.Inert : Action → Prop
  | .system c => c.Inert
  | _ => True

def AllInert (l : List Action) : Prop := ∀ a ∈ l, a.Inert

instance (c : Command) : Decidable c.Inert := inferInstanceAs (Decidable (∀ w ∈ c.words, _))

instance : DecidablePred Action.Inert
  | .system c => inferInstanceAs (Decidable c.Inert)
  | .createDirectories _ | .openFile _ | .setns | .unshare | .mount _ | .umount _ => .isTrue trivial

instance (l : List Action) : Decidable (AllInert l) := inferInstanceAs (Decidable (∀ a ∈ l, _))

theorem allInert_append {l l' : List Action} :
    AllInert (l ++ l') ↔ AllInert l ∧ AllInert l' :=
  List.forall_mem_append

theorem allInert_cons {a : Action} {l : List Action} :
    AllInert (a :: l) ↔ a.Inert ∧ AllInert l :=
  List.forall_mem_cons

theorem allInert_nil : AllInert [] := fun _ h => absurd h List.not_mem_nil

theorem allInert_before : AllInert (entering own m ++ mounting own) := by
  intro a ha
  cases a with
  | system c => exact absurd ha system_notMem_before
  | _ => trivial

theorem allInert_pairing : AllInert (pairing own) ↔ Plain own := by
  simp [pairing, allInert_cons, allInert_nil, Action.Inert, here_inert, Ip.names, inert_nu, inert_nd]

theorem allInert_bridging : AllInert (bridging own) ↔ Plain own := by
  simp [bridging, allInert_cons, allInert_nil, Action.Inert, here_inert, Ip.names, inert_nu, inert_nb]

theorem allInert_switchDeeds {hs : List (String × String)} :
    AllInert (switchDeeds own u net p hs) ↔ (Plain u ∧ Leading p ∧ Plain own) ∧
      ∀ h ∈ hs, Plain h.1 ∧ Shell.Inert net ∧ Leading h.2 := by
  have hroutes : AllInert (hs.map (routeTo net)) ↔
      ∀ h ∈ hs, Plain h.1 ∧ Shell.Inert net ∧ Leading h.2 := by
    rw [AllInert, List.forall_mem_map]
    refine forall₂_congr fun h _ => ?_
    simp [routeTo, Action.Inert, inside_inert, Ip.names, inert_host]
  rw [switchDeeds, allInert_cons, hroutes]
  simp [Action.Inert, inside_inert, Ip.names, inert_host_masked, inert_nd]

theorem allInert_switchEnd :
    AllInert (switchEnd own u p) ↔ Plain u ∧ Plain own ∧ Leading p := by
  have hdefault : Shell.Inert "default" := (inert_literals _ (by decide)).1
  have hgateway : Shell.Inert (host p 1) ↔ Leading p := inert_host (by decide)
  have haddress : Shell.Inert (host p 2 ++ "/24") ↔ Leading p := inert_host_masked (by decide)
  simp only [switchEnd, allInert_cons, Action.Inert, inside_inert, here_inert, Ip.names,
    List.forall_mem_cons, List.not_mem_nil, false_implies, implies_true, and_true, true_and,
    hgateway, haddress, hdefault, inert_nd, inert_nb]
  constructor
  · rintro ⟨⟨hu, hown⟩, ⟨hp, -⟩, -⟩
    exact ⟨hu, hown, hp⟩
  · rintro ⟨hu, hown, hp⟩
    exact ⟨⟨hu, hown⟩, ⟨hp, hown⟩, hp, allInert_nil⟩

theorem allInert_clientDeeds :
    AllInert (clientDeeds own u p) ↔ Plain u ∧ Plain own ∧ Leading p := by
  have hdefault : Shell.Inert "default" := (inert_literals _ (by decide)).1
  have hgateway : Shell.Inert (host p 1) ↔ Leading p := inert_host (by decide)
  have haddress : Shell.Inert (host p 3 ++ "/24") ↔ Leading p := inert_host_masked (by decide)
  simp only [clientDeeds, allInert_cons, Action.Inert, inside_inert, here_inert, Ip.names,
    List.forall_mem_cons, List.not_mem_nil, false_implies, implies_true, and_true, true_and,
    hgateway, haddress, hdefault, inert_nd, inert_nb, inert_nu]
  constructor
  · rintro ⟨⟨hu, hown, -⟩, -, ⟨hp, -⟩, -⟩
    exact ⟨hu, hown, hp⟩
  · rintro ⟨hu, hown, hp⟩
    exact ⟨⟨hu, hown, hu⟩, ⟨hu, hown⟩, ⟨hp, hown⟩, hp, allInert_nil⟩

/-! ### What comes into the commands -/

open Relation (TransGen ReflTransGen)

/-- `b` is the uplink of `a`, and a switch that the loop of `connect` gets through. -/
def RoutedUplink (tree : Object) (a b : String) : Prop :=
  Config.SwitchUplink tree a b ∧ ∀ m, Config.network tree b = some m → Routed m

/-- **What the loop gets through**, in terms of the configuration. -/
theorem mem_hops_iff (h : Ascent tree name (m :: ms)) {x : String × String} :
    x ∈ (hops ms).1 ↔ ∃ b bm, TransGen (RoutedUplink tree) name b ∧
      Config.network tree b = some bm ∧ hop bm = some x := by
  generalize hl : m :: ms = l at h
  induction h generalizing m ms with
  | last hm hup =>
    cases hl
    refine iff_of_false List.not_mem_nil ?_
    rintro ⟨b, bm, hb, -⟩
    obtain ⟨c, hc, -⟩ := TransGen.head'_iff.mp hb
    exact Config.not_switchUplink hm hup hc.1
  | @link name u m' ms' hm hup htail ih =>
    cases hl
    obtain ⟨um, ms, rfl⟩ := List.exists_cons_of_ne_nil htail.ne_nil
    have hfirst : ∀ {b}, RoutedUplink tree name b ↔ b = u ∧ isSwitch um = true ∧ Routed um := by
      intro b
      unfold RoutedUplink
      rw [Config.switchUplink_iff hm hup htail.network, and_assoc]
      refine and_congr_right ?_
      rintro rfl
      simp [htail.network]
    have hmore : (∃ b bm, TransGen (RoutedUplink tree) name b ∧
        Config.network tree b = some bm ∧ hop bm = some x) ↔
        isSwitch um = true ∧ Routed um ∧ (hop um = some x ∨ x ∈ (hops ms).1) := by
      rw [ih rfl]
      constructor
      · rintro ⟨b, bm, hb, hbm, hx⟩
        obtain ⟨c, hc, hcb⟩ := TransGen.head'_iff.mp hb
        obtain ⟨rfl, hswitch, hrouted⟩ := hfirst.mp hc
        refine ⟨hswitch, hrouted, ?_⟩
        rcases Relation.reflTransGen_iff_eq_or_transGen.mp hcb with rfl | hcb
        · rw [htail.network] at hbm
          cases hbm
          exact Or.inl hx
        · exact Or.inr ⟨b, bm, hcb, hbm, hx⟩
      · rintro ⟨hswitch, hrouted, hx | ⟨b, bm, hb, hbm, hx⟩⟩
        · exact ⟨u, um, .single (hfirst.mpr ⟨rfl, hswitch, hrouted⟩), htail.network, hx⟩
        · exact ⟨b, bm, .head (hfirst.mpr ⟨rfl, hswitch, hrouted⟩) hb, hbm, hx⟩
    rw [hmore, ← isSome_hop_iff, hops]
    cases isSwitch um with
    | false => simp
    | true =>
      cases hop um with
      | none => simp
      | some h => simp [eq_comm]

/-- **What is put into the commands** of the entity `name` is what the shell leaves alone. -/
structure Harmless (tree : Object) (name : String) (m : Object) : Prop where
  router : m.find "role" = some (.string "router") → Plain (argument name)
  switch : m.find "role" = some (.string "switch") → Plain (argument name) ∧
    ∀ u, uplinkName m = some u → Plain u ∧
      ∀ net, text m "address" = some net → ∀ p, subnet net = some p → Leading p ∧
        ∀ b bm x, TransGen (RoutedUplink tree) name b → Config.network tree b = some bm →
          hop bm = some x → Plain x.1 ∧ Shell.Inert net ∧ Leading x.2
  client : m.find "role" = some (.string "client") → Plain (argument name) ∧
    ∀ u, uplinkName m = some u → Plain u ∧
      ∀ v um p, Config.uplinkOf tree name = some v → Config.network tree v = some um →
        networkSubnet um = some p → Leading p

theorem allInert_connectDeeds_switch (hown : Plain own) (hswitch : isSwitch m = true) :
    AllInert (connectDeeds own m ms).1 ↔ ∀ u, uplinkName m = some u → Plain u ∧
      ∀ net, text m "address" = some net → ∀ p, subnet net = some p → Leading p ∧
        ∀ x ∈ (hops ms).1, Plain x.1 ∧ Shell.Inert net ∧ Leading x.2 := by
  have hdeeds : ∀ u, Plain u → (AllInert (connectedDeeds own u m ms).1 ↔
      ∀ net, text m "address" = some net → ∀ p, subnet net = some p → Leading p ∧
        ∀ x ∈ (hops ms).1, Plain x.1 ∧ Shell.Inert net ∧ Leading x.2) := by
    intro u hu
    rw [connectedDeeds, if_pos hswitch]
    cases text m "address" with
    | none => simp [allInert_nil]
    | some net =>
      simp only [Option.some.injEq, forall_eq']
      cases hsubnet : subnet net with
      | none => simp [allInert_nil]
      | some p =>
        simp only [Option.some.injEq, forall_eq']
        cases (hops ms).2 with
        | true =>
          rw [if_pos rfl, allInert_append, allInert_switchDeeds, allInert_switchEnd]
          constructor
          · rintro ⟨⟨⟨-, hp, -⟩, hhops⟩, -⟩
            exact ⟨hp, hhops⟩
          · rintro ⟨hp, hhops⟩
            exact ⟨⟨⟨hu, hp, hown⟩, hhops⟩, hu, hown, hp⟩
        | false =>
          rw [if_neg Bool.false_ne_true, allInert_switchDeeds]
          constructor
          · rintro ⟨⟨-, hp, -⟩, hhops⟩
            exact ⟨hp, hhops⟩
          · rintro ⟨hp, hhops⟩
            exact ⟨⟨hu, hp, hown⟩, hhops⟩
  unfold connectDeeds
  cases uplinkName m with
  | none => simp [allInert_nil]
  | some u =>
    have hmove : (Action.system (here (.linkSetNetns (nd own) u))).Inert ↔ Plain u := by
      simp [Action.Inert, here_inert, Ip.names, inert_nd, inert_netnsName, hown]
    rw [allInert_cons, hmove]
    simp only [Option.some.injEq, forall_eq']
    exact and_congr_right fun hu => hdeeds u hu

theorem allInert_connectDeeds_client (hown : Plain own) (hclient : isSwitch m = false) :
    AllInert (connectDeeds own m ms).1 ↔ ∀ u, uplinkName m = some u → Plain u ∧
      ∀ p, uplinkSubnet ms = some p → Leading p := by
  unfold connectDeeds
  cases uplinkName m with
  | none => simp [allInert_nil]
  | some u =>
    rw [allInert_cons, connectedDeeds, if_neg (by simp [hclient])]
    cases uplinkSubnet ms with
    | none =>
      simp [allInert_cons, allInert_nil, Action.Inert, here_inert, inside_inert, Ip.names, inert_nd,
        inert_nb, inert_netnsName, hown]
    | some p =>
      simp [allInert_clientDeeds, Action.Inert, here_inert, Ip.names, inert_nd, inert_netnsName, hown]

/-- **Everything that is asked of the system**, where nothing fails. -/
theorem Given.allInert_iff (h : Given tree name m ms r component) :
    AllInert (preparing (argument name) m r ++ (connecting (argument name) m ms r).1) ↔
      Harmless tree name m := by
  obtain ⟨-, hrouter, hswitch, hclient⟩ := h.role_iff
  rw [allInert_append, preparing, allInert_append, and_iff_right allInert_before]
  constructor
  · rintro ⟨hlinking, hconnecting⟩
    refine ⟨fun hr => ?_, fun hr => ?_, fun hr => ?_⟩
    · obtain rfl := hrouter.mp hr
      exact allInert_pairing.mp hlinking
    · obtain rfl := hswitch.mp hr
      have hown := allInert_pairing.mp (allInert_append.mp hlinking).1
      refine ⟨hown, fun u hu => ?_⟩
      obtain ⟨hplain, haddress⟩ :=
        (allInert_connectDeeds_switch hown (h.isSwitch_iff.mpr rfl)).mp hconnecting u hu
      refine ⟨hplain, fun net hnet p hp => ?_⟩
      obtain ⟨hleading, hhops⟩ := haddress net hnet p hp
      exact ⟨hleading, fun b bm x hb hbm hx =>
        hhops x ((mem_hops_iff h.chain).mpr ⟨b, bm, hb, hbm, hx⟩)⟩
    · obtain rfl := hclient.mp hr
      have hno : isSwitch m = false := Bool.eq_false_iff.mpr fun hc => by cases h.isSwitch_iff.mp hc
      have hown := allInert_pairing.mp hlinking
      refine ⟨hown, fun u hu => ?_⟩
      obtain ⟨hplain, huplink⟩ := (allInert_connectDeeds_client hown hno).mp hconnecting u hu
      exact ⟨hplain, fun v um p hv hum hp =>
        huplink p ((uplinkSubnet_eq_some_iff h.chain).mpr ⟨v, um, hv, hum, hp⟩)⟩
  · rintro ⟨hrouterOk, hswitchOk, hclientOk⟩
    cases r with
    | root | interface => exact ⟨allInert_nil, allInert_nil⟩
    | router => exact ⟨allInert_pairing.mpr (hrouterOk (hrouter.mpr rfl)), allInert_nil⟩
    | switch =>
      obtain ⟨hown, hup⟩ := hswitchOk (hswitch.mpr rfl)
      refine ⟨allInert_append.mpr ⟨allInert_pairing.mpr hown, allInert_bridging.mpr hown⟩,
        (allInert_connectDeeds_switch hown (h.isSwitch_iff.mpr rfl)).mpr fun u hu => ?_⟩
      obtain ⟨hplain, haddress⟩ := hup u hu
      refine ⟨hplain, fun net hnet p hp => ⟨(haddress net hnet p hp).1, fun x hx => ?_⟩⟩
      obtain ⟨b, bm, hb, hbm, hx⟩ := (mem_hops_iff h.chain).mp hx
      exact (haddress net hnet p hp).2 b bm x hb hbm hx
    | client =>
      obtain ⟨hown, hup⟩ := hclientOk (hclient.mpr rfl)
      have hno : isSwitch m = false := Bool.eq_false_iff.mpr fun hc => by cases h.isSwitch_iff.mp hc
      refine ⟨allInert_pairing.mpr hown,
        (allInert_connectDeeds_client hown hno).mpr fun u hu => ⟨(hup u hu).1, fun p hp => ?_⟩⟩
      obtain ⟨v, um, hv, hum, hp⟩ := (uplinkSubnet_eq_some_iff h.chain).mp hp
      exact (hup u hu).2 v um p hv hum hp

/-! ### From the start to the end -/

/-- What undoes a command that is read as it is meant is so too. -/
theorem undo_inert (hown : Plain own) {a b : Action} (ha : a.Inert)
    (h : Action.undo own a = some b) : b.Inert := by
  cases a with
  | system c =>
    obtain ⟨netns, ip⟩ := c
    cases netns with
    | none =>
      have hnames := here_inert.mp ha
      cases ip with
      | linkSetNetns link entity =>
        cases h
        have hentity := hnames (netnsName entity) (by simp [Ip.names])
        refine inside_inert.mpr ⟨inert_netnsName.mp hentity, ?_⟩
        simpa [Ip.names, inert_netnsName, hown] using hnames link (by simp [Ip.names])
      | linkAddVeth | linkAddBridge | addrAdd | routeAdd =>
        cases h
        refine here_inert.mpr fun w hw => hnames w ?_
        simp only [Ip.names, List.mem_cons, List.not_mem_nil, or_false] at hw ⊢
        tauto
      | _ => cases h
    | some u =>
      obtain ⟨hu, hnames⟩ := inside_inert.mp ha
      cases ip with
      | linkAddVeth | linkAddBridge | linkSetUp | addrAdd | routeAdd =>
        cases h
        refine inside_inert.mpr ⟨hu, fun w hw => hnames w ?_⟩
        simp only [Ip.names, List.mem_cons, List.not_mem_nil, or_false] at hw ⊢
        tauto
      | _ => cases h
  | mount path =>
    cases h
    trivial
  | _ => cases h

/-- With a command there are links, which have the name of the entity. -/
theorem plain_of_system {c : Command}
    (hall : AllInert (preparing own m r ++ (connecting own m ms r).1))
    (hc : .system c ∈ preparing own m r ++ (connecting own m ms r).1) : Plain own := by
  obtain ⟨hpreparing, -⟩ := allInert_append.mp hall
  obtain ⟨-, hlinking⟩ := allInert_append.mp hpreparing
  cases r with
  | root | interface =>
    rw [preparing, linking, connecting, List.append_nil, List.append_nil] at hc
    exact absurd hc system_notMem_before
  | router | client => exact allInert_pairing.mp hlinking
  | switch => exact allInert_pairing.mp (allInert_append.mp hlinking).1

/-- Whatever fails, the process does nothing but what it does where nothing fails, and
what undoes that. -/
theorem Given.of_mem_lifetime {ok : ℕ → Bool} (h : Given tree name m ms r component) {a : Action}
    (ha : a ∈ (lifetime ok own component).actions) :
    a ∈ preparing own m r ++ (connecting own m ms r).1 ∨
      ∃ b ∈ preparing own m r ++ (connecting own m ms r).1, Action.undo own b = some a := by
  cases hnet : addNetwork ok own component .initial with
  | ok _ p =>
    obtain ⟨-, hactions, hcleanups, hconnection⟩ := h.of_ok hnet
    rw [lifetime_of_ok hnet, hactions, hcleanups, hconnection] at ha
    rcases List.mem_append.mp ha with ha | ha
    · exact Or.inl ha
    · right
      simp only [List.mem_append, List.mem_reverse, List.mem_filterMap] at ha
      rcases ha with ⟨b, hb, hundo⟩ | ⟨b, hb, hundo⟩
      · exact ⟨b, List.mem_append_right _ hb, hundo⟩
      · exact ⟨b, List.mem_append_left _ hb, hundo⟩
  | error f p =>
    rw [lifetime_of_error hnet] at ha
    have hcut := addNetwork_cut ok own component .initial
    rw [hnet, h.actions] at hcut
    exact Or.inl (hcut.subset ha)

theorem Given.mem_lifetime (h : Given tree name m ms r component) {a : Action}
    (ha : a ∈ preparing own m r ++ (connecting own m ms r).1) :
    a ∈ (lifetime allOk own component).actions := by
  rw [← h.actions] at ha
  cases hnet : addNetwork allOk own component .initial with
  | ok _ p =>
    rw [hnet] at ha
    rw [lifetime_of_ok hnet]
    exact List.mem_append_left _ ha
  | error f p =>
    rw [hnet] at ha
    rwa [lifetime_of_error hnet]

/-- **The commands of an entity are read as they are meant**, from its start to its end and
whatever fails, just if what is put into them is harmless. -/
theorem commands_split_iff (h : Ledger.loadAndRun parse j calls = some s)
    (hsent : s.Sends name m component) :
    (∀ ok c, .system c ∈ (lifetime ok (argument name) component).actions →
      Shell.shellWords c.text = some c.words) ↔
      Harmless s.manager.running.configuration name m := by
  obtain ⟨ms, r, hgiven⟩ := exists_given h hsent
  rw [← hgiven.allInert_iff]
  constructor
  · intro hsplit a ha
    cases a with
    | system c => exact Command.shellWords_iff.mp (hsplit allOk c (hgiven.mem_lifetime ha))
    | _ => trivial
  · intro hall ok c hc
    apply Command.shellWords_iff.mpr
    rcases hgiven.of_mem_lifetime hc with hc | ⟨b, hb, hundo⟩
    · exact hall _ hc
    · have hinert : (Action.system c).Inert := by
        cases b with
        | system c' => exact undo_inert (plain_of_system hall hb) (hall _ hb) hundo
        | mount path => cases hundo
        | _ => cases hundo
      exact hinert

theorem commands_split_iff_uplinksFile :
    ∃ s m component, Ledger.loadAndRun (fun _ => none) uplinksFile [] = some s ∧
      s.Sends "a" m component ∧
      ∀ ok c, .system c ∈ (lifetime ok (argument "a") component).actions →
        Shell.shellWords c.text = some c.words := by
  obtain ⟨s, m, component, hs, hsent, hp⟩ := exists_sends (fun _ => none) uplinksFile [] "a"
    (fun _ p => AllInert (finalState (addNetwork allOk (argument "a") p.2 .initial)).actions)
    (by decide +kernel)
  obtain ⟨ms, r, hgiven⟩ := exists_given hs hsent
  have hall := of_decide_eq_true hp
  rw [hgiven.actions] at hall
  exact ⟨s, m, component, hs, hsent, (commands_split_iff hs hsent).mpr (hgiven.allInert_iff.mp hall)⟩

/-- A switch whose address has a command in it. -/
def commandFile : Json :=
  .object [("!metadata", .object [("version", .integer 1)]),
    ("a", .object [("network", .object [("address", .string "10.0.0;reboot;.0/24"),
      ("role", .string "switch"), ("uplink", .string "b")])]),
    ("b", .object [("network", .object [("role", .string "root")])])]

/-- **An address with a command in it is accepted**, and the shell runs it. -/
theorem address_runs :
    ¬ ∀ (parse : String → Option Json) (j : Json) (calls : List Call) (s : Ledger) (name : String)
      (m : Object) (component : Json) (ok : ℕ → Bool) (c : Command),
      Ledger.loadAndRun parse j calls = some s → s.Sends name m component →
        .system c ∈ (lifetime ok (argument name) component).actions →
          Shell.shellWords c.text = some c.words := by
  intro h
  obtain ⟨s, m, component, hs, hsent, hp⟩ := exists_sends (fun _ => none) commandFile [] "a"
    (fun _ p => .system (inside "b" (.addrAdd "10.0.0;reboot;.1/24" "nd-a")) ∈
        (lifetime allOk (argument "a") p.2).actions ∧
      ¬ (inside "b" (.addrAdd "10.0.0;reboot;.1/24" "nd-a")).Inert) (by decide +kernel)
  obtain ⟨hmem, hnot⟩ := of_decide_eq_true hp
  exact hnot (Command.shellWords_iff.mp (h _ _ _ _ _ _ _ allOk _ hs hsent hmem))

end Entityd

end Nonsense
