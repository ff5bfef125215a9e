/-
# Network settings from the app (`DANAVIDEOCMD_SETNETINFO`)

The handler reads the stored Ethernet configuration, writes the part of it that the mode
asked for, and stores it again.  A static command switches DHCP off; the command that asks
for DHCP clears the addresses and leaves the switch as it is, so that it only does what it
asks for where DHCP was on already (`setNetInfo_follows`).

The address fields are taken as the strings they hold.
-/
import Mathlib.Data.List.Induction
import Mathlib.Data.Nat.Notation

/-! ## The handler -/

/-- `sdk_ip_info_t`, less its padding. -/
structure SdkIpInfo where
  ifName : List Char
  ipAddr : List Char
  mask : List Char
  gateway : List Char
  mac : List Char
  dns1 : List Char
  dns2 : List Char
  enableDhcp : ℕ
  dnsAutoEn : ℕ
deriving DecidableEq

/-- `sdk_eth_cfg_t` -/
structure SdkEthCfg where
  ipInfo : SdkIpInfo
  ifMode : ℕ
  wifiType : ℕ
deriving DecidableEq

/-- What the handler reads of `DANAVIDEOCMD_SETNETINFO_ARG`. -/
structure SetNetInfoArg where
  ipType : ℕ
  ipaddr : List Char
  netmask : List Char
  gateway : List Char
  dnsType : ℕ
  dnsName1 : List Char
  dnsName2 : List Char
deriving DecidableEq

/-- `case DANAVIDEOCMD_SETNETINFO`: the configuration that is stored for the one that was read. -/
def setNetInfo (ethCfg : SdkEthCfg) (arg : SetNetInfoArg) : SdkEthCfg :=
  if 1 = arg.ipType then
    -- `enable_dhcp` is not written here
    { ethCfg with ipInfo := { ethCfg.ipInfo with
        ipAddr := []
        gateway := []
        mask := []
        dns1 := []
        dns2 := [] } }
  else if 0 = arg.ipType then
    { ethCfg with ipInfo := { ethCfg.ipInfo with
        enableDhcp := arg.ipType % 256
        ipAddr := arg.ipaddr
        gateway := arg.gateway
        mask := arg.netmask
        dns1 := arg.dnsName1
        dns2 := arg.dnsName2
        dnsAutoEn := arg.dnsType % 256 } }
  else ethCfg

/-! ## What a command asks for -/

/-- A string that fits a field of 16 bytes with its NUL. -/
def FitsAddress (s : List Char) : Prop := s.length < 16 ∧ '\x00' ∉ s

/-- A command of the app: one of the two modes, and addresses that fit their fields. -/
structure NetInfoCmd extends SetNetInfoArg where
  mode : ipType = 0 ∨ ipType = 1
  fits : FitsAddress ipaddr ∧ FitsAddress netmask ∧ FitsAddress gateway
    ∧ FitsAddress dnsName1 ∧ FitsAddress dnsName2

/-- The command asks for DHCP. -/
def NetInfoCmd.AsksDhcp (cmd : NetInfoCmd) : Prop := cmd.ipType = 1

/-- DHCP is used: `1 == ip_info->enable_dhcp` -/
def SdkEthCfg.DhcpEnabled (cfg : SdkEthCfg) : Prop := cfg.ipInfo.enableDhcp = 1

/-- The addresses the command carries are the ones stored. -/
def SdkEthCfg.HasAddresses (cfg : SdkEthCfg) (cmd : NetInfoCmd) : Prop :=
  cfg.ipInfo.ipAddr = cmd.ipaddr ∧ cfg.ipInfo.mask = cmd.netmask
    ∧ cfg.ipInfo.gateway = cmd.gateway ∧ cfg.ipInfo.dns1 = cmd.dnsName1
    ∧ cfg.ipInfo.dns2 = cmd.dnsName2

/-- The settings no command carries. -/
def SdkEthCfg.uncarried (cfg : SdkEthCfg) : List Char × List Char × ℕ × ℕ :=
  (cfg.ipInfo.ifName, cfg.ipInfo.mac, cfg.ifMode, cfg.wifiType)

/-- The stored configuration follows the command: DHCP is on exactly when it asks for it, a static
command's addresses are stored, and what it does not carry is kept. -/
structure Follows (old : SdkEthCfg) (cmd : NetInfoCmd) (new : SdkEthCfg) : Prop where
  dhcp : new.DhcpEnabled ↔ cmd.AsksDhcp
  addresses : ¬ cmd.AsksDhcp → new.HasAddresses cmd
  kept : new.uncarried = old.uncarried

/-- The configuration after a sequence of commands. -/
def netInfoRun (cfg : SdkEthCfg) (cmds : List NetInfoCmd) : SdkEthCfg :=
  cmds.foldl (fun cfg cmd => setNetInfo cfg cmd.toSetNetInfoArg) cfg

/-- After each command the stored configuration follows it. -/
def FollowsEach (cfg : SdkEthCfg) (cmds : List NetInfoCmd) : Prop :=
  ∀ before cmd after, cmds = before ++ cmd :: after →
    Follows (netInfoRun cfg before) cmd (netInfoRun cfg (before ++ [cmd]))

theorem netInfoRun_concat (cfg : SdkEthCfg) (before : List NetInfoCmd) (cmd : NetInfoCmd) :
    netInfoRun cfg (before ++ [cmd])
      = setNetInfo (netInfoRun cfg before) cmd.toSetNetInfoArg := by
  rw [netInfoRun, List.foldl_append, List.foldl_cons, List.foldl_nil, netInfoRun]

/-! ## One command -/

theorem setNetInfo_dhcp {cfg : SdkEthCfg} {cmd : NetInfoCmd} (h : cmd.AsksDhcp) :
    (setNetInfo cfg cmd.toSetNetInfoArg).ipInfo.enableDhcp = cfg.ipInfo.enableDhcp := by
  rw [setNetInfo, if_pos h.symm]

theorem setNetInfo_static {cfg : SdkEthCfg} {cmd : NetInfoCmd} (h : ¬ cmd.AsksDhcp) :
    (setNetInfo cfg cmd.toSetNetInfoArg).ipInfo.enableDhcp = 0
      ∧ (setNetInfo cfg cmd.toSetNetInfoArg).HasAddresses cmd := by
  have hzero : cmd.ipType = 0 := cmd.mode.resolve_right h
  have hone : ¬ 1 = cmd.ipType := fun heq => h heq.symm
  rw [setNetInfo, if_neg hone, if_pos hzero.symm]
  exact ⟨by rw [hzero], rfl, rfl, rfl, rfl, rfl⟩

theorem setNetInfo_uncarried (cfg : SdkEthCfg) (arg : SetNetInfoArg) :
    (setNetInfo cfg arg).uncarried = cfg.uncarried := by
  unfold setNetInfo
  split
  · rfl
  split <;> rfl

/-- DHCP is on after a command when it asks for it and DHCP was on before. -/
theorem dhcpEnabled_setNetInfo (cfg : SdkEthCfg) (cmd : NetInfoCmd) :
    (setNetInfo cfg cmd.toSetNetInfoArg).DhcpEnabled ↔ cmd.AsksDhcp ∧ cfg.DhcpEnabled := by
  by_cases h : cmd.AsksDhcp
  · rw [SdkEthCfg.DhcpEnabled, setNetInfo_dhcp h, SdkEthCfg.DhcpEnabled]
    exact (and_iff_right h).symm
  · rw [SdkEthCfg.DhcpEnabled, (setNetInfo_static h).1]
    exact iff_of_false (by decide) fun hand => h hand.1

/-- The stored configuration follows a command exactly when the command is static or DHCP was on. -/
theorem setNetInfo_follows (cfg : SdkEthCfg) (cmd : NetInfoCmd) :
    Follows cfg cmd (setNetInfo cfg cmd.toSetNetInfoArg)
      ↔ (cmd.AsksDhcp → cfg.DhcpEnabled) := by
  constructor
  · intro h hasks
    exact ((dhcpEnabled_setNetInfo cfg cmd).mp (h.dhcp.mpr hasks)).2
  · intro h
    refine ⟨?_, fun hstatic => (setNetInfo_static hstatic).2, setNetInfo_uncarried cfg _⟩
    rw [dhcpEnabled_setNetInfo]
    exact and_iff_left_of_imp h

/-! ## Sequences of commands -/

/-- DHCP is on after commands when it was on at the start and every one of them asks for it. -/
theorem dhcpEnabled_netInfoRun (cfg : SdkEthCfg) (cmds : List NetInfoCmd) :
    (netInfoRun cfg cmds).DhcpEnabled ↔ cfg.DhcpEnabled ∧ ∀ cmd ∈ cmds, cmd.AsksDhcp := by
  induction cmds using List.reverseRecOn with
  | nil => simp [netInfoRun]
  | append_singleton before cmd ih =>
    rw [netInfoRun_concat, dhcpEnabled_setNetInfo, ih]
    constructor
    · rintro ⟨hasks, hon, hbefore⟩
      refine ⟨hon, fun d hd => ?_⟩
      rcases List.mem_append.mp hd with hd | hd
      · exact hbefore d hd
      · rwa [List.mem_singleton.mp hd]
    · rintro ⟨hon, hall⟩
      exact ⟨hall cmd (by simp), hon, fun d hd => hall d (List.mem_append_left _ hd)⟩

/-- For every stored configuration and every sequence of commands: the stored configuration follows
each of them exactly when every one that asks for DHCP finds it on at the start and comes after no
static one. -/
theorem set_net_info_follows_iff (cfg : SdkEthCfg) (cmds : List NetInfoCmd) :
    FollowsEach cfg cmds
      ↔ ∀ before cmd after, cmds = before ++ cmd :: after → cmd.AsksDhcp →
          cfg.DhcpEnabled ∧ ∀ d ∈ before, d.AsksDhcp := by
  unfold FollowsEach
  apply forall_congr'
  intro before
  apply forall_congr'
  intro cmd
  apply forall_congr'
  intro after
  apply imp_congr_right
  intro _
  rw [netInfoRun_concat, setNetInfo_follows, dhcpEnabled_netInfoRun]

/-- A configuration with a static address. -/
def staticCfg : SdkEthCfg :=
  ⟨⟨"eth0".toList, "192.168.1.10".toList, "255.255.255.0".toList, "192.168.1.1".toList,
    "00:11:22:33:44:55".toList, "192.168.1.1".toList, "8.8.8.8".toList, 0, 0⟩, 1, 0⟩

/-- A command for DHCP. -/
def dhcpCmd : NetInfoCmd where
  ipType := 1
  ipaddr := []
  netmask := []
  gateway := []
  dnsType := 0
  dnsName1 := []
  dnsName2 := []
  mode := .inr rfl
  fits := by
    have hnil : FitsAddress [] := ⟨by decide, by decide⟩
    exact ⟨hnil, hnil, hnil, hnil, hnil⟩

/-- The app asks a camera with a static address for DHCP: DHCP stays off, and the address is
cleared. -/
theorem set_net_info_dhcp_off :
    (setNetInfo staticCfg dhcpCmd.toSetNetInfoArg).ipInfo.ipAddr = []
      ∧ ¬ FollowsEach staticCfg [dhcpCmd] := by
  refine ⟨by decide, fun h => ?_⟩
  have hon := (h [] dhcpCmd [] rfl).dhcp.mpr rfl
  exact absurd hon (by unfold SdkEthCfg.DhcpEnabled; decide)
