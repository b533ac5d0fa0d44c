import Upkeep.RunResult
import Upkeep.Scope
import Upkeep.Toml.Reader
import Upkeep.Toml.Section

/-!
# Configuration

Everything an administrator can set, with its defaults, in the sections of the configuration
file. Reading checks types only; `Config.check` says what a combination of settings lacks.

The mode of a run follows from two settings: applying implies downloading, and a run that does
neither only reports.

## Main definitions

* `Config` and its sections.
* `Config.parse`, `Config.check`, `Config.override`.
* `Config.mode`, `Config.scope`, `Config.systemName`: what a run reads off the settings.
-/

namespace Upkeep

/-! ### Choices -/

/-- Which upgrades a run is about. -/
inductive UpgradeType where
  /-- All of them. -/
  | default
  /-- Security fixes. -/
  | security
  /-- Security fixes from a severity on. -/
  | securitySeverity
  /-- What given advisories fix. -/
  | advisories
  deriving DecidableEq, Repr, Inhabited

/-- Whether to download. -/
inductive DownloadPolicy where
  /-- No. -/
  | no
  /-- Yes. -/
  | yes
  /-- Yes, for someone who applies later. -/
  | attended
  deriving DecidableEq, Repr, Inhabited

/-- When to recommend a reboot. -/
inductive RebootPolicy where
  /-- Never. -/
  | never
  /-- After any change. -/
  | whenChanged
  /-- When the host says that what was applied needs one. -/
  | whenNeeded
  deriving DecidableEq, Repr, Inhabited

/-- The kinds of emitter. -/
inductive EmitterKind where
  /-- Standard output and error. -/
  | stdio
  /-- Mail over SMTP. -/
  | email
  /-- The system log. -/
  | syslog
  /-- The message of the day. -/
  | motd
  /-- A command. -/
  | command
  /-- A command that sends mail. -/
  | commandEmail
  deriving DecidableEq, Repr, Inhabited

/-- How to secure the connection to the mail server. -/
inductive MailSecurity where
  /-- Not at all. -/
  | no
  /-- By upgrading it. -/
  | starttls
  /-- From the start. -/
  | yes
  deriving DecidableEq, Repr, Inhabited

namespace UpgradeType

/-- The names in the configuration file, with the one that is written first. -/
def choices : List (String × UpgradeType) :=
  [("default", .default), ("all", .default), ("security", .security),
    ("security-severity", .securitySeverity), ("advisories", .advisories)]

/-- The written name. -/
def name : UpgradeType → String
  | .default => "default"
  | .security => "security"
  | .securitySeverity => "security-severity"
  | .advisories => "advisories"

end UpgradeType

namespace DownloadPolicy

/-- The written name. -/
def name : DownloadPolicy → String
  | .no => "no"
  | .yes => "yes"
  | .attended => "attended"

/-- The names in the configuration file. -/
def choices : List (String × DownloadPolicy) :=
  [DownloadPolicy.no, .yes, .attended].map (fun p => (p.name, p))

end DownloadPolicy

namespace RebootPolicy

/-- The written name. -/
def name : RebootPolicy → String
  | .never => "never"
  | .whenChanged => "when-changed"
  | .whenNeeded => "when-needed"

/-- The names in the configuration file. -/
def choices : List (String × RebootPolicy) :=
  [RebootPolicy.never, .whenChanged, .whenNeeded].map (fun p => (p.name, p))

end RebootPolicy

namespace EmitterKind

/-- The written name, by which an emitter also goes in reports. -/
def name : EmitterKind → String
  | .stdio => "stdio"
  | .email => "email"
  | .syslog => "syslog"
  | .motd => "motd"
  | .command => "command"
  | .commandEmail => "command_email"

/-- Every kind. -/
def all : List EmitterKind := [.stdio, .email, .syslog, .motd, .command, .commandEmail]

/-- The names in the configuration file. -/
def choices : List (String × EmitterKind) := all.map (fun k => (k.name, k))

end EmitterKind

namespace MailSecurity

/-- The written name. -/
def name : MailSecurity → String
  | .no => "no"
  | .starttls => "starttls"
  | .yes => "yes"

/-- The names in the configuration file. -/
def choices : List (String × MailSecurity) :=
  [MailSecurity.no, .starttls, .yes].map (fun p => (p.name, p))

end MailSecurity

/-! ### Sections -/

/-- What a run does. -/
structure CommandsConfig where
  /-- Which upgrades it is about. -/
  upgradeType : UpgradeType := .default
  /-- The least severity, for security fixes from a severity on. -/
  minSeverity : Option Severity := none
  /-- The advisories, for what given advisories fix. -/
  advisories : List String := []
  /-- Seconds between runs. -/
  minIntervalSecs : Nat := 3600
  /-- Longest random sleep of a timer run, in seconds. -/
  randomSleepSecs : Nat := 0
  /-- Whether to download. -/
  downloadUpdates : DownloadPolicy := .yes
  /-- Whether to apply. -/
  applyUpdates : Bool := false
  /-- When to recommend a reboot. -/
  reboot : RebootPolicy := .never
  /-- Whether to carry out a recommended reboot. -/
  triggerReboot : Bool := false
  /-- The command that reboots. -/
  rebootCommand : String := "shutdown -r +5 'Rebooting after applying package updates'"
  /-- Seconds to wait for a network; zero does not wait. -/
  networkOnlineTimeoutSecs : Nat := 60
  /-- Seconds after which metadata is stale. -/
  metadataMaxAgeSecs : Nat := 21600
  /-- Seconds a metadata command may take. -/
  metadataTimeoutSecs : Nat := 300
  deriving DecidableEq, Repr

/-- How to download. -/
structure DownloadConfig where
  /-- Downloads at a time. -/
  maxParallel : Nat := 4
  /-- Attempts for each artifact. -/
  maxAttempts : Nat := 3
  /-- Milliseconds before the second attempt. -/
  backoffBaseMs : Nat := 500
  /-- Most milliseconds between attempts. -/
  backoffMaxMs : Nat := 30000
  /-- Seconds an attempt may take. -/
  timeoutSecs : Nat := 120
  /-- Where artifacts are kept. -/
  cacheDir : String := "/var/cache/autopatch/packages"
  deriving DecidableEq, Repr

/-- How to apply. -/
structure ApplyConfig where
  /-- Seconds a transaction may take. -/
  timeoutSecs : Nat := 3600
  deriving DecidableEq, Repr

/-- Which emitters report, and how. -/
structure EmittersConfig where
  /-- The emitters. -/
  emitVia : List EmitterKind := [.stdio]
  /-- The system's name in reports; the host name when there is none. -/
  systemName : Option String := none
  /-- Whether to report that there is nothing to upgrade. -/
  emitWhenUpToDate : Bool := false
  /-- Seconds an emitter may take. -/
  timeoutSecs : Nat := 30
  deriving DecidableEq, Repr

/-- Mail over SMTP. -/
structure EmailConfig where
  /-- The sender. -/
  emailFrom : String := "root@localhost"
  /-- The recipients. -/
  emailTo : List String := []
  /-- The mail server. -/
  emailHost : String := "localhost"
  /-- Its port. -/
  emailPort : Nat := 25
  /-- How to secure the connection. -/
  emailTls : MailSecurity := .no
  deriving DecidableEq, Repr

/-- A command that is given the report. -/
structure CommandConfig where
  /-- The command line. -/
  commandFormat : String := "cat"
  /-- What it reads. -/
  stdinFormat : String := "\x7bbody\x7d"
  deriving DecidableEq, Repr

/-- A command that mails the report. -/
structure CommandEmailConfig where
  /-- The command line. -/
  commandFormat : String :=
    "mail -Ssendwait -s \x7bsubject\x7d -r \x7bemail_from\x7d \x7bemail_to\x7d"
  /-- What it reads. -/
  stdinFormat : String := "\x7bbody\x7d"
  /-- The sender. -/
  emailFrom : String := "root@localhost"
  /-- The recipients. -/
  emailTo : List String := []
  deriving DecidableEq, Repr

/-- The system log. -/
structure SyslogConfig where
  /-- The tag of the entries. -/
  tag : String := "autopatch"
  /-- Their facility. -/
  facility : String := "daemon"
  deriving DecidableEq, Repr

/-- The message of the day. -/
structure MotdConfig where
  /-- Its file. -/
  path : String := "/etc/motd.d/autopatch"
  deriving DecidableEq, Repr

/-- What applies everywhere. -/
structure BaseConfig where
  /-- How much to log. -/
  debugLevel : Nat := 1
  /-- The repositories to look at; all of them when there are none. -/
  repos : List String := []
  /-- Patterns of package names that are never considered. -/
  excludePkgs : List String := []
  deriving DecidableEq, Repr

/-- Where state is kept. -/
structure StateConfig where
  /-- The lock file. -/
  lockPath : String := "/run/autopatch/autopatch.lock"
  /-- The last-run marker. -/
  timestampPath : String := "/var/lib/autopatch/last_run.json"
  deriving DecidableEq, Repr

/-- Every setting. -/
structure Config where
  /-- What a run does. -/
  commands : CommandsConfig := {}
  /-- How to download. -/
  download : DownloadConfig := {}
  /-- How to apply. -/
  apply : ApplyConfig := {}
  /-- Which emitters report. -/
  emitters : EmittersConfig := {}
  /-- Mail over SMTP. -/
  email : EmailConfig := {}
  /-- A command that is given the report. -/
  command : CommandConfig := {}
  /-- A command that mails the report. -/
  commandEmail : CommandEmailConfig := {}
  /-- The system log. -/
  syslog : SyslogConfig := {}
  /-- The message of the day. -/
  motd : MotdConfig := {}
  /-- What applies everywhere. -/
  base : BaseConfig := {}
  /-- Where state is kept. -/
  state : StateConfig := {}
  deriving DecidableEq, Repr

/-! ### Reading -/

namespace Config

open Toml (asText asBool asNat asList asChoice asSection)

/-- Numbers of 64 bits. -/
def limit64 : Nat := 18446744073709551616

/-- The settings about what a run does. -/
def readCommands (t : Toml) : Option CommandsConfig := do
  let d : CommandsConfig := {}
  let s ← asSection ["upgrade_type", "min_severity", "advisories", "min_interval_secs",
    "random_sleep_secs", "download_updates", "apply_updates", "reboot", "trigger_reboot",
    "reboot_command", "network_online_timeout_secs", "metadata_max_age_secs",
    "metadata_timeout_secs"] t
  let upgradeType ← s.setting "upgrade_type" d.upgradeType (asChoice UpgradeType.choices)
  let minSeverity ← s.setting "min_severity" none
    (fun v => (asChoice (Severity.all.map (fun x => (x.name, x))) v).map some)
  let advisories ← s.setting "advisories" d.advisories (asList asText)
  let minIntervalSecs ← s.setting "min_interval_secs" d.minIntervalSecs (asNat limit64)
  let randomSleepSecs ← s.setting "random_sleep_secs" d.randomSleepSecs (asNat limit64)
  let downloadUpdates ← s.setting "download_updates" d.downloadUpdates
    (asChoice DownloadPolicy.choices)
  let applyUpdates ← s.setting "apply_updates" d.applyUpdates asBool
  let reboot ← s.setting "reboot" d.reboot (asChoice RebootPolicy.choices)
  let triggerReboot ← s.setting "trigger_reboot" d.triggerReboot asBool
  let rebootCommand ← s.setting "reboot_command" d.rebootCommand asText
  let networkOnlineTimeoutSecs ← s.setting "network_online_timeout_secs"
    d.networkOnlineTimeoutSecs (asNat limit64)
  let metadataMaxAgeSecs ← s.setting "metadata_max_age_secs" d.metadataMaxAgeSecs
    (asNat limit64)
  let metadataTimeoutSecs ← s.setting "metadata_timeout_secs" d.metadataTimeoutSecs
    (asNat limit64)
  some ⟨upgradeType, minSeverity, advisories, minIntervalSecs, randomSleepSecs, downloadUpdates,
    applyUpdates, reboot, triggerReboot, rebootCommand, networkOnlineTimeoutSecs,
    metadataMaxAgeSecs, metadataTimeoutSecs⟩

/-- The settings about downloading. -/
def readDownload (t : Toml) : Option DownloadConfig := do
  let d : DownloadConfig := {}
  let s ← asSection ["max_parallel", "max_attempts", "backoff_base_ms", "backoff_max_ms",
    "timeout_secs", "cache_dir"] t
  let maxParallel ← s.setting "max_parallel" d.maxParallel (asNat limit64)
  let maxAttempts ← s.setting "max_attempts" d.maxAttempts (asNat 4294967296)
  let backoffBaseMs ← s.setting "backoff_base_ms" d.backoffBaseMs (asNat limit64)
  let backoffMaxMs ← s.setting "backoff_max_ms" d.backoffMaxMs (asNat limit64)
  let timeoutSecs ← s.setting "timeout_secs" d.timeoutSecs (asNat limit64)
  let cacheDir ← s.setting "cache_dir" d.cacheDir asText
  some ⟨maxParallel, maxAttempts, backoffBaseMs, backoffMaxMs, timeoutSecs, cacheDir⟩

/-- The settings about applying. -/
def readApply (t : Toml) : Option ApplyConfig := do
  let s ← asSection ["timeout_secs"] t
  some ⟨← s.setting "timeout_secs" 3600 (asNat limit64)⟩

/-- The settings about emitters. -/
def readEmitters (t : Toml) : Option EmittersConfig := do
  let d : EmittersConfig := {}
  let s ← asSection ["emit_via", "system_name", "emit_when_up_to_date", "timeout_secs"] t
  let emitVia ← s.setting "emit_via" d.emitVia (asList (asChoice EmitterKind.choices))
  let systemName ← s.setting "system_name" none (fun v => (asText v).map some)
  let emitWhenUpToDate ← s.setting "emit_when_up_to_date" d.emitWhenUpToDate asBool
  let timeoutSecs ← s.setting "timeout_secs" d.timeoutSecs (asNat limit64)
  some ⟨emitVia, systemName, emitWhenUpToDate, timeoutSecs⟩

/-- The settings about mail. -/
def readEmail (t : Toml) : Option EmailConfig := do
  let d : EmailConfig := {}
  let s ← asSection ["email_from", "email_to", "email_host", "email_port", "email_tls"] t
  let emailFrom ← s.setting "email_from" d.emailFrom asText
  let emailTo ← s.setting "email_to" d.emailTo (asList asText)
  let emailHost ← s.setting "email_host" d.emailHost asText
  let emailPort ← s.setting "email_port" d.emailPort (asNat 65536)
  let emailTls ← s.setting "email_tls" d.emailTls (asChoice MailSecurity.choices)
  some ⟨emailFrom, emailTo, emailHost, emailPort, emailTls⟩

/-- The settings about the command that is given the report. -/
def readCommand (t : Toml) : Option CommandConfig := do
  let d : CommandConfig := {}
  let s ← asSection ["command_format", "stdin_format"] t
  let commandFormat ← s.setting "command_format" d.commandFormat asText
  let stdinFormat ← s.setting "stdin_format" d.stdinFormat asText
  some ⟨commandFormat, stdinFormat⟩

/-- The settings about the command that mails the report. -/
def readCommandEmail (t : Toml) : Option CommandEmailConfig := do
  let d : CommandEmailConfig := {}
  let s ← asSection ["command_format", "stdin_format", "email_from", "email_to"] t
  let commandFormat ← s.setting "command_format" d.commandFormat asText
  let stdinFormat ← s.setting "stdin_format" d.stdinFormat asText
  let emailFrom ← s.setting "email_from" d.emailFrom asText
  let emailTo ← s.setting "email_to" d.emailTo (asList asText)
  some ⟨commandFormat, stdinFormat, emailFrom, emailTo⟩

/-- The settings about the system log. -/
def readSyslog (t : Toml) : Option SyslogConfig := do
  let d : SyslogConfig := {}
  let s ← asSection ["tag", "facility"] t
  let tag ← s.setting "tag" d.tag asText
  let facility ← s.setting "facility" d.facility asText
  some ⟨tag, facility⟩

/-- The settings about the message of the day. -/
def readMotd (t : Toml) : Option MotdConfig := do
  let d : MotdConfig := {}
  let s ← asSection ["path"] t
  some ⟨← s.setting "path" d.path asText⟩

/-- The settings that apply everywhere. -/
def readBase (t : Toml) : Option BaseConfig := do
  let d : BaseConfig := {}
  let s ← asSection ["debuglevel", "repos", "excludepkgs"] t
  let debugLevel ← s.setting "debuglevel" d.debugLevel (asNat 256)
  let repos ← s.setting "repos" d.repos (asList asText)
  let excludePkgs ← s.setting "excludepkgs" d.excludePkgs (asList asText)
  some ⟨debugLevel, repos, excludePkgs⟩

/-- The settings about where state is kept. -/
def readState (t : Toml) : Option StateConfig := do
  let d : StateConfig := {}
  let s ← asSection ["lock_path", "timestamp_path"] t
  let lockPath ← s.setting "lock_path" d.lockPath asText
  let timestampPath ← s.setting "timestamp_path" d.timestampPath asText
  some ⟨lockPath, timestampPath⟩

/-- Reads every section of a document. -/
def ofToml (t : Toml) : Option Config := do
  let s ← asSection ["commands", "download", "apply", "emitters", "email", "command",
    "command_email", "syslog", "motd", "base", "state"] t
  let commands ← s.setting "commands" {} readCommands
  let download ← s.setting "download" {} readDownload
  let apply ← s.setting "apply" {} readApply
  let emitters ← s.setting "emitters" {} readEmitters
  let email ← s.setting "email" {} readEmail
  let command ← s.setting "command" {} readCommand
  let commandEmail ← s.setting "command_email" {} readCommandEmail
  let syslog ← s.setting "syslog" {} readSyslog
  let motd ← s.setting "motd" {} readMotd
  let base ← s.setting "base" {} readBase
  let state ← s.setting "state" {} readState
  some ⟨commands, download, apply, emitters, email, command, commandEmail, syslog, motd, base,
    state⟩

/-- The configuration a text denotes; `none` when the text or the type of a setting is wrong. -/
def parse (text : String) : Option Config := (Toml.parse text).bind ofToml

/-! ### Checking -/

/-- What a combination of settings can lack. -/
inductive Problem where
  /-- Security fixes from a severity on, without the severity. -/
  | severityMissing
  /-- What given advisories fix, without advisories. -/
  | advisoriesMissing
  /-- No download at a time. -/
  | noParallelDownloads
  /-- No attempt at a download. -/
  | noAttempts
  /-- Mail without recipients. -/
  | noMailRecipients
  /-- Mail by a command without recipients. -/
  | noCommandMailRecipients
  deriving DecidableEq, Repr

/-- The message about a problem. -/
def Problem.message (p : Problem) : String :=
  "Invalid configuration: " ++
    match p with
    | .severityMissing => "upgrade_type = security-severity requires min_severity"
    | .advisoriesMissing => "upgrade_type = advisories requires a non-empty advisories list"
    | .noParallelDownloads => "download.max_parallel must be at least 1"
    | .noAttempts => "download.max_attempts must be at least 1"
    | .noMailRecipients => "email emitter requires email.email_to"
    | .noCommandMailRecipients => "command_email emitter requires command_email.email_to"

/-- The first problem of a configuration. -/
def check (c : Config) : Option Problem :=
  if c.commands.upgradeType == .securitySeverity && c.commands.minSeverity.isNone then
    some .severityMissing
  else if c.commands.upgradeType == .advisories && c.commands.advisories.isEmpty then
    some .advisoriesMissing
  else if c.download.maxParallel == 0 then some .noParallelDownloads
  else if c.download.maxAttempts == 0 then some .noAttempts
  else if c.emitters.emitVia.contains .email && c.email.emailTo.isEmpty then
    some .noMailRecipients
  else if c.emitters.emitVia.contains .commandEmail && c.commandEmail.emailTo.isEmpty then
    some .noCommandMailRecipients
  else none

/-! ### What a run reads off the settings -/

/-- The command line's word on downloading and applying wins over the configured one. -/
def override (c : Config) (download apply : Option Bool) : Config :=
  { c with commands := { c.commands with
      downloadUpdates := match download with
        | some true => .yes
        | some false => .no
        | none => c.commands.downloadUpdates
      applyUpdates := apply.getD c.commands.applyUpdates } }

/-- Whether a run downloads; applying implies it. -/
def effectiveDownload (c : Config) : DownloadPolicy :=
  if c.commands.applyUpdates then .yes else c.commands.downloadUpdates

/-- What a run does with the candidates it finds. -/
def mode (c : Config) : Mode :=
  if c.commands.applyUpdates then .apply
  else if c.effectiveDownload == .no then .reportOnly
  else .downloadOnly

/-- Which candidates a run considers. -/
def scope (c : Config) : Scope :=
  match c.commands.upgradeType with
  | .default => .all
  | .security => .security
  | .securitySeverity => .severity (c.commands.minSeverity.getD .low)
  | .advisories => Scope.ofAdvisories c.commands.advisories

/-- The system's name in reports. -/
def systemName (c : Config) (hostName : String) : String :=
  match c.emitters.systemName with
  | some name => if name == "" then hostName else name
  | none => hostName

/-- The least time between runs. -/
def minInterval (c : Config) : Span := Span.ofSeconds c.commands.minIntervalSecs

/-- The age from which metadata is stale. -/
def metadataMaxAge (c : Config) : Span := Span.ofSeconds c.commands.metadataMaxAgeSecs

/-- The level of logging. -/
def logLevel (c : Config) : String :=
  if c.base.debugLevel == 0 then "warn"
  else if c.base.debugLevel ≤ 2 then "info"
  else if c.base.debugLevel ≤ 5 then "debug"
  else "trace"

/-- The file read when the command line names none. -/
def defaultPath : String := "/etc/autopatch/autopatch.toml"

end Config

end Upkeep
