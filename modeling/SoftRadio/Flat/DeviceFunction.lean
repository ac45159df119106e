import SoftRadio.Flat.Output

/-!
The functions of the flat interface that ask something of a device.  Each
has a name, a shape of output, and a way to make its arguments into a call.
Functions on channels come in pairs, one for each direction.
-/

namespace SoftRadio.Flat

structure DeviceFunction (α : Type) where
  name : String
  output : Output
  call : Arguments α → Except Fault (Call α)

namespace DeviceFunction

variable {α : Type} [Scalar α]

/-- The table of the functions on a whole device or a motherboard. -/
def ofBoards : List (DeviceFunction α) :=
  [⟨"radio_device_get_pp_string", .text, fun _ => .ok .summary⟩,
    ⟨"radio_device_get_num_mboards", .value, fun _ => .ok .boardCount⟩,
    ⟨"radio_device_get_mboard_name", .text, fun a => .ok (.boardName a.board)⟩,
    ⟨"radio_device_get_master_clock_rate", .value, fun a => .ok (.clockRate a.board)⟩,
    ⟨"radio_device_set_master_clock_rate", .nothing, fun a => .ok (.setClockRate a.value a.board)⟩,
    ⟨"radio_device_get_time_now", .time, fun a => .ok (.timeNow a.board)⟩,
    ⟨"radio_device_get_time_last_pps", .time, fun a => .ok (.timeLastPulse a.board)⟩,
    ⟨"radio_device_set_time_now", .nothing, fun a => do
      let time ← a.time.read
      return .setTimeNow time a.board⟩,
    ⟨"radio_device_set_time_next_pps", .nothing, fun a => do
      let time ← a.time.read
      return .setTimeNextPulse time a.board⟩,
    ⟨"radio_device_set_time_unknown_pps", .nothing, fun a => do
      let time ← a.time.read
      return .setTimeUnknownPulse time⟩,
    ⟨"radio_device_get_time_synchronized", .value, fun _ => .ok .timeSynchronized⟩,
    ⟨"radio_device_set_command_time", .nothing, fun a => do
      let time ← a.time.read
      return .setCommandTime time a.board⟩,
    ⟨"radio_device_clear_command_time", .nothing, fun a => .ok (.clearCommandTime a.board)⟩,
    ⟨"radio_device_issue_stream_cmd", .nothing, fun a => do
      let command ← a.readCommand
      return .issue command a.chan⟩,
    ⟨"radio_device_get_time_source", .text, fun a => .ok (.timeSource a.board)⟩,
    ⟨"radio_device_set_time_source", .nothing, fun a => do
      let source ← a.text.read "time source"
      return .setTimeSource source a.board⟩,
    ⟨"radio_device_get_time_sources", .texts, fun a => .ok (.timeSources a.board)⟩,
    ⟨"radio_device_get_clock_source", .text, fun a => .ok (.clockSource a.board)⟩,
    ⟨"radio_device_set_clock_source", .nothing, fun a => do
      let source ← a.text.read "clock source"
      return .setClockSource source a.board⟩,
    ⟨"radio_device_get_clock_sources", .texts, fun a => .ok (.clockSources a.board)⟩,
    ⟨"radio_device_set_clock_source_out", .nothing, fun a =>
      .ok (.setClockSourceOut a.enable a.board)⟩,
    ⟨"radio_device_get_mboard_sensor", .value, fun a => do
      let name ← a.name.read "sensor name"
      return .boardSensor name a.board⟩,
    ⟨"radio_device_get_mboard_sensor_names", .texts, fun a => .ok (.boardSensorNames a.board)⟩,
    ⟨"radio_device_set_user_register", .nothing, fun a =>
      .ok (.setRegister a.register a.data a.board)⟩,
    ⟨"radio_device_get_mboard_eeprom", .text, fun a =>
      .ok (.property (mboardEepromPath a.board) .address)⟩,
    ⟨"radio_device_set_mboard_eeprom", .nothing, fun a => do
      let markup ← a.text.read "eeprom"
      return .setProperty (mboardEepromPath a.board) (.address (Address.parse markup))⟩,
    ⟨"radio_device_get_dboard_eeprom", .value, fun a => do
      let slot ← a.slot.read "slot"
      let unit ← a.unit.read "unit"
      return .property (dboardEepromPath a.board slot unit) .dboard⟩,
    ⟨"radio_device_set_dboard_eeprom", .nothing, fun a => do
      a.given .record "eeprom"
      let slot ← a.slot.read "slot"
      let unit ← a.unit.read "unit"
      let eeprom ← a.record.toEeprom
      return .setProperty (dboardEepromPath a.board slot unit) (.dboard eeprom)⟩,
    ⟨"radio_device_get_gpio_banks", .texts, fun a => .ok (.gpioBanks a.board)⟩,
    ⟨"radio_device_set_gpio_attr", .nothing, fun a => do
      let bank ← a.bank.read "bank"
      let attr ← a.attr.read "attr"
      return .setGpio bank attr a.word a.mask a.board⟩,
    ⟨"radio_device_get_gpio_attr", .value, fun a => do
      let bank ← a.bank.read "bank"
      let attr ← a.attr.read "attr"
      return .gpio bank attr a.board⟩,
    ⟨"radio_device_set_rx_agc", .nothing, fun a => .ok (.setAgc a.enable a.chan)⟩]

/-- The table of the functions on the channels of a direction. -/
def ofChannels (dir : Direction) : List (DeviceFunction α) :=
  let d := dir.name
  [⟨s!"radio_device_get_{d}_info", .value, fun a => .ok (.info dir a.chan)⟩,
    ⟨s!"radio_device_set_{d}_subdev_spec", .nothing, fun a => do
      let markup ← a.text.read "subdev spec"
      let spec ← SubdevSpec.parse markup
      return .setSubdevSpec dir spec a.board⟩,
    ⟨s!"radio_device_get_{d}_subdev_spec", .text, fun a => .ok (.subdevSpec dir a.board)⟩,
    ⟨s!"radio_device_get_{d}_num_channels", .value, fun _ => .ok (.channelCount dir)⟩,
    ⟨s!"radio_device_get_{d}_subdev_name", .text, fun a => .ok (.subdevName dir a.chan)⟩,
    ⟨s!"radio_device_set_{d}_rate", .nothing, fun a => .ok (.setRate dir a.value a.chan)⟩,
    ⟨s!"radio_device_get_{d}_rate", .value, fun a => .ok (.rate dir a.chan)⟩,
    ⟨s!"radio_device_get_{d}_rates", .ranges, fun a => .ok (.rates dir a.chan)⟩,
    ⟨s!"radio_device_set_{d}_freq", .value, fun a => do
      let request ← a.readTuneRequest
      return .tune dir request a.chan⟩,
    ⟨s!"radio_device_get_{d}_freq", .value, fun a => .ok (.freq dir a.chan)⟩,
    ⟨s!"radio_device_get_{d}_freq_range", .ranges, fun a => .ok (.freqRange dir a.chan)⟩,
    ⟨s!"radio_device_get_fe_{d}_freq_range", .ranges, fun a => .ok (.rfRange dir a.chan)⟩,
    ⟨s!"radio_device_set_{d}_gain", .nothing, fun a => do
      let name ← a.name.readGainName
      return .setGain dir a.value name a.chan⟩,
    ⟨s!"radio_device_get_{d}_gain", .value, fun a => do
      let name ← a.name.readGainName
      return .gain dir name a.chan⟩,
    ⟨s!"radio_device_set_normalized_{d}_gain", .nothing, fun a =>
      .ok (.setNormalizedGain dir a.value a.chan)⟩,
    ⟨s!"radio_device_get_normalized_{d}_gain", .value, fun a =>
      .ok (.normalizedGain dir a.chan)⟩,
    ⟨s!"radio_device_get_{d}_gain_range", .ranges, fun a => do
      let name ← a.name.readGainName
      return .gainRange dir name a.chan⟩,
    ⟨s!"radio_device_get_{d}_gain_names", .texts, fun a => .ok (.gainNames dir a.chan)⟩,
    ⟨s!"radio_device_set_{d}_antenna", .nothing, fun a => do
      let antenna ← a.text.read "antenna"
      return .setAntenna dir antenna a.chan⟩,
    ⟨s!"radio_device_get_{d}_antenna", .text, fun a => .ok (.antenna dir a.chan)⟩,
    ⟨s!"radio_device_get_{d}_antennas", .texts, fun a => .ok (.antennas dir a.chan)⟩,
    ⟨s!"radio_device_set_{d}_bandwidth", .nothing, fun a =>
      .ok (.setBandwidth dir a.value a.chan)⟩,
    ⟨s!"radio_device_get_{d}_bandwidth", .value, fun a => .ok (.bandwidth dir a.chan)⟩,
    ⟨s!"radio_device_get_{d}_bandwidth_range", .ranges, fun a => .ok (.bandwidthRange dir a.chan)⟩,
    ⟨s!"radio_device_get_{d}_sensor", .value, fun a => do
      let name ← a.name.read "sensor name"
      return .sensor dir name a.chan⟩,
    ⟨s!"radio_device_get_{d}_sensor_names", .texts, fun a => .ok (.sensorNames dir a.chan)⟩,
    ⟨s!"radio_device_set_{d}_dc_offset_enabled", .nothing, fun a =>
      .ok (.setDcOffset dir a.enable a.chan)⟩,
    ⟨s!"radio_device_set_{d}_iq_balance_enabled", .nothing, fun a =>
      .ok (.setIqBalance dir a.enable a.chan)⟩]

/-- All functions on devices. -/
def table : List (DeviceFunction α) := ofBoards ++ ofChannels .rx ++ ofChannels .tx

/-- Check the outputs, then the arguments. -/
def prepare (f : DeviceFunction α) (a : Arguments α) : Except Fault (Call α) := do
  f.output.check a
  f.call a

end DeviceFunction

end SoftRadio.Flat
