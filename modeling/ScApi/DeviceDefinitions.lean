import ScApi.Lib.Bytes

/-!
# Roles and types of devices

The enumerations in the descriptions of devices. A description names their values by ids, which stand in
tables in the order of the enumerators, and the last enumerator is for every other id.

## Main results

* `deviceRoleFromString_eq_wheel_iff`: the id of the first role.
-/

open Bytes

namespace ScApi.DeviceInfo

/-- The search of `deviceRoleFromString` and of its siblings: the enumerator whose number is that of the
first equal id in front of the last one. -/
def fromIds {α : Type} (ids : List String) (cast : ℕ → α) (other : α) (s : List UInt8) : α :=
  (ids.dropLast.findIdx? fun id => s = ascii id).elim other cast

/-- Device roles: the intended use of the whole device, and the type of the device. -/
inductive DeviceRole where
  | wheel | wheelbase | throttlePedal | brakePedal | handbrake | clutchPedal | gearStick
  | buttonBox | hub | unknown | other
  deriving DecidableEq, Repr

/-- `device_role_ids`. -/
def deviceRoleIds : List String :=
  ["wheel", "wheelbase", "throttle_pedal", "brake_pedal", "handbrake", "clutch_pedal",
    "gear_stick", "button_box", "hub", "unknown", "other"]

/-- `deviceRoleFromString`. -/
def deviceRoleFromString : List UInt8 → DeviceRole :=
  fromIds deviceRoleIds DeviceRole.ofNat .other

/-- The physical controls of devices. -/
inductive ControlType where
  | wheelbase | wheel | pedal | paddle | hatSwitch | button | toggleSwitch | dir2way | dir4way
  | rotEnc | funkySwitch | light | unknown | other
  deriving DecidableEq, Repr

/-- `control_type_ids`. -/
def controlTypeIds : List String :=
  ["wheelbase", "wheel", "pedal", "paddle", "hat_switch", "button", "toggle_switch", "dir_2way",
    "dir_4way", "rot_enc", "funky_switch", "light", "unknown", "other"]

/-- `controlTypeFromString`. -/
def controlTypeFromString : List UInt8 → ControlType :=
  fromIds controlTypeIds ControlType.ofNat .other

/-- How the simulator can interact with devices. -/
inductive FeedbackType where
  | directInput | wheelbase | activePedal | rgbLight | light | unknown | other
  deriving DecidableEq, Repr

/-- `feedback_type_ids`. -/
def feedbackTypeIds : List String :=
  ["direct_input", "wheelbase", "active_pedal", "rgb_light", "light", "unknown", "other"]

/-- `feedbackTypeFromString`. -/
def feedbackTypeFromString : List UInt8 → FeedbackType :=
  fromIds feedbackTypeIds FeedbackType.ofNat .other

/-- The intended use of an input source. -/
inductive InputRole where
  | steering | throttle | brake | clutch | clutchSecondary | clutchPrimary | gearShift
  | gearShiftUp | gearShiftDown | handbrake | ignition | starter | headlightToggle
  | highBeamToggle | headlightFlash | pitLimiter | overtake | drs | tractionControlToggle
  | tractionControlIncrease | tractionControlDecrease | tearOffVisor | triggerWindshieldWipers
  | toggleWindshieldWipers | brakeBiasIncrease | brakeBiasDecrease | frontAntirollBarIncrease
  | frontAntirollBarDecrease | rearAntirollBarIncrease | rearAntirollBarDecrease
  | fuelMapIncrease | fuelMapDecrease | turboPressureIncrease | turboPressureDecrease
  | absAdjust | absIncrease | absDecrease | frontWingIncrease | frontWingDecrease
  | rearWingIncrease | rearWingDecrease | diffPreloadIncrease | diffPreloadDecrease
  | diffEntryIncrease | diffEntryDecrease | diffMiddleIncrease | diffMiddleDecrease
  | diffExitIncrease | diffExitDecrease | throttleShapingIncrease | throttleShapingDecrease
  | mguKReGenGainIncrease | mguKReGenGainDecrease | mguKDeployModeIncrease
  | mguKDeployModeDecrease | mguKFixedDeployIncrease | mguKFixedDeployDecrease | lowFuelAccept
  | fcyModeToggle | nextDashPage | previousDashPage | leftIndicator | rightIndicator | kers
  | horn | resetVehicle | enterVehicle | exitVehicle | launchControl | absValue0 | absValue1
  | absValue2 | absValue3 | absValue4 | absValue5 | absValue6 | absValue7 | absValue8
  | absValue9 | absValue10 | absValue11 | tcAdjust | tcValue0 | tcValue1 | tcValue2 | tcValue3
  | tcValue4 | tcValue5 | tcValue6 | tcValue7 | tcValue8 | tcValue9 | tcValue10 | tcValue11
  | tc2Value0 | tc2Value1 | tc2Value2 | tc2Value3 | tc2Value4 | tc2Value5 | tc2Value6
  | tc2Value7 | tc2Value8 | tc2Value9 | tc2Value10 | tc2Value11 | enter | back | up | down
  | left | right | pause | nextOverlayPage | previousOverlayPage | lapTimingOverlayPage
  | standingsOverlayPage | relativeOverlayPage | fuelOverlayPage | tiresOverlayPage
  | tireInfoOverlayPage | pitStopAdjustmentsOverlayPage | inCarAdjustmentsOverlayPage
  | mirrorAdjustmentsOverlayPage | radioAdjustmentsOverlayPage | weatherOverlayPage
  | selectNextControl | selectPreviousControl | incrementSelectedControl
  | decrementSelectedControl | toggleSelectedControl | toggleDashBox | prevSplitsDeltaDisplay
  | nextSplitsDeltaDisplay | increaseFieldOfView | decreaseFieldOfView | shiftHorizonUp
  | shiftHorizonDown | increaseDriverHeight | decreaseDriverHeight | recenterTiltAxis
  | glanceLeft | glanceRight | glanceBack | changeCamera | moveForward | moveBackward | moveLeft
  | moveRight | markEventInTelemetry | activeResetSaveStartPoint | activeResetRun
  | spotterSilence | damageReport | ffbGainIncrease | ffbGainDecrease | inGamePushToTalk
  | externalPushToTalk | chatSorry | chatThanks | chatEnterPit | chatExitPit | mute
  | volumeIncrease | volumeDecrease | unknown | unmapped | other
  deriving DecidableEq, Repr

/-- `input_role_ids`. -/
def inputRoleIds : List String :=
  ["steering", "throttle", "brake", "clutch", "clutch_secondary", "clutch_primary", "gear_shift",
    "gear_shift_up", "gear_shift_down", "handbrake", "ignition", "starter", "headlight_toggle",
    "high_beam_toggle", "headlight_flash", "pit_limiter", "overtake", "drs",
    "traction_control_toggle", "traction_control_increase", "traction_control_decrease",
    "tear_off_visor", "trigger_windshield_wipers", "toggle_windshield_wipers",
    "brake_bias_increase", "brake_bias_decrease", "front_antiroll_bar_increase",
    "front_antiroll_bar_decrease", "rear_antiroll_bar_increase", "rear_antiroll_bar_decrease",
    "fuel_map_increase", "fuel_map_decrease", "turbo_pressure_increase",
    "turbo_pressure_decrease", "abs_adjust", "abs_increase", "abs_decrease",
    "front_wing_increase", "front_wing_decrease", "rear_wing_increase", "rear_wing_decrease",
    "diff_preload_increase", "diff_preload_decrease", "diff_entry_increase",
    "diff_entry_decrease", "diff_middle_increase", "diff_middle_decrease", "diff_exit_increase",
    "diff_exit_decrease", "throttle_shaping_increase", "throttle_shaping_decrease",
    "mgu_k_re_gen_gain_increase", "mgu_k_re_gen_gain_decrease", "mgu_k_deploy_mode_increase",
    "mgu_k_deploy_mode_decrease", "mgu_k_fixed_deploy_increase", "mgu_k_fixed_deploy_decrease",
    "low_fuel_accept", "fcy_mode_toggle", "next_dash_page", "previous_dash_page",
    "left_indicator", "right_indicator", "kers", "horn", "reset_vehicle", "enter_vehicle",
    "exit_vehicle", "launch_control", "abs_value_0", "abs_value_1", "abs_value_2", "abs_value_3",
    "abs_value_4", "abs_value_5", "abs_value_6", "abs_value_7", "abs_value_8", "abs_value_9",
    "abs_value_10", "abs_value_11", "tc_adjust", "tc_value_0", "tc_value_1", "tc_value_2",
    "tc_value_3", "tc_value_4", "tc_value_5", "tc_value_6", "tc_value_7", "tc_value_8",
    "tc_value_9", "tc_value_10", "tc_value_11", "tc2_value_0", "tc2_value_1", "tc2_value_2",
    "tc2_value_3", "tc2_value_4", "tc2_value_5", "tc2_value_6", "tc2_value_7", "tc2_value_8",
    "tc2_value_9", "tc2_value_10", "tc2_value_11", "enter", "back", "up", "down", "left", "right",
    "pause", "next_overlay_page", "previous_overlay_page", "lap_timing_overlay_page",
    "standings_overlay_page", "relative_overlay_page", "fuel_overlay_page", "tires_overlay_page",
    "tire_info_overlay_page", "pit_stop_adjustments_overlay_page",
    "in_car_adjustments_overlay_page", "mirror_adjustments_overlay_page",
    "radio_adjustments_overlay_page", "weather_overlay_page", "select_next_control",
    "select_previous_control", "increment_selected_control", "decrement_selected_control",
    "toggle_selected_control", "toggle_dash_box", "prev_splits_delta_display",
    "next_splits_delta_display", "increase_field_of_view", "decrease_field_of_view",
    "shift_horizon_up", "shift_horizon_down", "increase_driver_height", "decrease_driver_height",
    "recenter_tilt_axis", "glance_left", "glance_right", "glance_back", "change_camera",
    "move_forward", "move_backward", "move_left", "move_right", "mark_event_in_telemetry",
    "active_reset_save_start_point", "active_reset_run", "spotter_silence", "damage_report",
    "ffb_gain_increase", "ffb_gain_decrease", "in_game_push_to_talk", "external_push_to_talk",
    "chat_sorry", "chat_thanks", "chat_enter_pit", "chat_exit_pit", "mute", "volume_increase",
    "volume_decrease", "unknown", "unmapped", "other"]

/-- `inputRoleFromString`. -/
def inputRoleFromString : List UInt8 → InputRole :=
  fromIds inputRoleIds InputRole.ofNat .other

/-- How an input is represented. -/
inductive InputType where
  | axis | button | incRotEnc | absRotEnc | unknown | other
  deriving DecidableEq, Repr

/-- `input_type_ids`. -/
def inputTypeIds : List String :=
  ["axis", "button", "inc_rot_enc", "abs_rot_enc", "unknown", "other"]

/-- `inputTypeFromString`. -/
def inputTypeFromString : List UInt8 → InputType :=
  fromIds inputTypeIds InputType.ofNat .other

/-- Only the id of the first role is read as it. -/
theorem deviceRoleFromString_eq_wheel_iff {s : List UInt8} :
    deviceRoleFromString s = .wheel ↔ s = ascii "wheel" := by
  have hids : deviceRoleIds.dropLast = "wheel" :: deviceRoleIds.dropLast.tail := rfl
  have hother : ∀ i : Fin 9, DeviceRole.ofNat (i + 1) ≠ .wheel := by decide
  rw [deviceRoleFromString, fromIds, hids, List.findIdx?_cons]
  by_cases hs : s = ascii "wheel"
  · simp only [hs, decide_true, if_true]
    exact iff_of_true rfl trivial
  · simp only [hs, decide_false, iff_false]
    cases hfind : deviceRoleIds.dropLast.tail.findIdx? fun id => s = ascii id with
    | none => exact DeviceRole.noConfusion
    | some i =>
        obtain ⟨hlt, -⟩ := List.findIdx?_eq_some_iff_getElem.mp hfind
        exact hother ⟨i, hlt⟩

end ScApi.DeviceInfo
