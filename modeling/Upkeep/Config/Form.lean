import Upkeep.Config
import Upkeep.Json.Value

/-!
# Settings on display

Every setting with the value it has, under the names of the configuration file.

## Main definitions

* `Config.toJson`.
-/

namespace Upkeep.Config

/-- A list of texts. -/
def texts (ts : List String) : Json := .array (ts.map .text)

/-- What a run does. -/
def commandsForm (c : CommandsConfig) : Json :=
  Json.record [("upgrade_type", .text c.upgradeType.name),
    ("min_severity", Json.optional (fun (s : Severity) => .text s.name) c.minSeverity),
    ("advisories", texts c.advisories), ("min_interval_secs", .nat c.minIntervalSecs),
    ("random_sleep_secs", .nat c.randomSleepSecs),
    ("download_updates", .text c.downloadUpdates.name), ("apply_updates", .bool c.applyUpdates),
    ("reboot", .text c.reboot.name), ("trigger_reboot", .bool c.triggerReboot),
    ("reboot_command", .text c.rebootCommand),
    ("network_online_timeout_secs", .nat c.networkOnlineTimeoutSecs),
    ("metadata_max_age_secs", .nat c.metadataMaxAgeSecs),
    ("metadata_timeout_secs", .nat c.metadataTimeoutSecs)]

/-- How to download. -/
def downloadForm (c : DownloadConfig) : Json :=
  Json.record [("max_parallel", .nat c.maxParallel), ("max_attempts", .nat c.maxAttempts),
    ("backoff_base_ms", .nat c.backoffBaseMs), ("backoff_max_ms", .nat c.backoffMaxMs),
    ("timeout_secs", .nat c.timeoutSecs), ("cache_dir", .text c.cacheDir)]

/-- Which emitters report, and how. -/
def emittersForm (c : EmittersConfig) : Json :=
  Json.record [("emit_via", texts (c.emitVia.map EmitterKind.name)),
    ("system_name", Json.optional .text c.systemName),
    ("emit_when_up_to_date", .bool c.emitWhenUpToDate), ("timeout_secs", .nat c.timeoutSecs)]

/-- Mail. -/
def emailForm (c : EmailConfig) : Json :=
  Json.record [("email_from", .text c.emailFrom), ("email_to", texts c.emailTo),
    ("email_host", .text c.emailHost), ("email_port", .nat c.emailPort),
    ("email_tls", .text c.emailTls.name)]

/-- Mail by a command. -/
def commandEmailForm (c : CommandEmailConfig) : Json :=
  Json.record [("command_format", .text c.commandFormat), ("stdin_format", .text c.stdinFormat),
    ("email_from", .text c.emailFrom), ("email_to", texts c.emailTo)]

/-- Every setting. -/
def toJson (c : Config) : Json :=
  Json.record [("commands", commandsForm c.commands), ("download", downloadForm c.download),
    ("apply", Json.record [("timeout_secs", .nat c.apply.timeoutSecs)]),
    ("emitters", emittersForm c.emitters), ("email", emailForm c.email),
    ("command", Json.record [("command_format", .text c.command.commandFormat),
      ("stdin_format", .text c.command.stdinFormat)]),
    ("command_email", commandEmailForm c.commandEmail),
    ("syslog", Json.record [("tag", .text c.syslog.tag), ("facility", .text c.syslog.facility)]),
    ("motd", Json.record [("path", .text c.motd.path)]),
    ("base", Json.record [("debuglevel", .nat c.base.debugLevel), ("repos", texts c.base.repos),
      ("excludepkgs", texts c.base.excludePkgs)]),
    ("state", Json.record [("lock_path", .text c.state.lockPath),
      ("timestamp_path", .text c.state.timestampPath)])]

end Upkeep.Config
