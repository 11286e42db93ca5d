/-!
Functions that every program may call: name, parameters and result, in the
notation of the language.
-/

namespace PhpCheck.Builtin

/-- Text. -/
def stringFunctions : List (String × String × String) :=
  [("strlen", "string $string", "int"),
   ("strtolower", "string $string", "string"),
   ("strtoupper", "string $string", "string"),
   ("ucfirst", "string $string", "string"),
   ("lcfirst", "string $string", "string"),
   ("ucwords", "string $string, string $separators = \" \"", "string"),
   ("trim", "string $string, string $characters = \" \"", "string"),
   ("ltrim", "string $string, string $characters = \" \"", "string"),
   ("rtrim", "string $string, string $characters = \" \"", "string"),
   ("str_replace",
    "array|string $search, array|string $replace, array|string $subject, int &$count = null",
    "string|array"),
   ("str_ireplace",
    "array|string $search, array|string $replace, array|string $subject, int &$count = null",
    "string|array"),
   ("str_repeat", "string $string, int $times", "string"),
   ("str_pad",
    "string $string, int $length, string $pad_string = \" \", int $pad_type = 1",
    "string"),
   ("str_split", "string $string, int $length = 1", "string[]"),
   ("str_contains", "string $haystack, string $needle", "bool"),
   ("str_starts_with", "string $haystack, string $needle", "bool"),
   ("str_ends_with", "string $haystack, string $needle", "bool"),
   ("strpos", "string $haystack, string $needle, int $offset = 0", "int|false"),
   ("stripos", "string $haystack, string $needle, int $offset = 0", "int|false"),
   ("strrpos", "string $haystack, string $needle, int $offset = 0", "int|false"),
   ("strstr", "string $haystack, string $needle, bool $before_needle = false", "string|false"),
   ("strrchr", "string $haystack, string $needle", "string|false"),
   ("substr", "string $string, int $offset, ?int $length = null", "string"),
   ("substr_count", "string $haystack, string $needle", "int"),
   ("substr_replace",
    "array|string $string, array|string $replace, array|int $offset, array|int|null $length = null",
    "string|array"),
   ("strcmp", "string $string1, string $string2", "int"),
   ("strcasecmp", "string $string1, string $string2", "int"),
   ("strncmp", "string $string1, string $string2, int $length", "int"),
   ("strrev", "string $string", "string"),
   ("sprintf", "string $format, mixed ...$values", "string"),
   ("vsprintf", "string $format, array $values", "string"),
   ("printf", "string $format, mixed ...$values", "int"),
   ("number_format",
    "float $num, int $decimals = 0, ?string $decimal_separator = \".\", " ++
      "?string $thousands_separator = \",\"",
    "string"),
   ("implode", "array|string $separator, ?array $array = null", "string"),
   ("join", "array|string $separator, ?array $array = null", "string"),
   ("explode", "string $separator, string $string, int $limit = PHP_INT_MAX", "string[]"),
   ("nl2br", "string $string, bool $use_xhtml = true", "string"),
   ("htmlspecialchars",
    "string $string, int $flags = 3, ?string $encoding = null, bool $double_encode = true",
    "string"),
   ("htmlentities",
    "string $string, int $flags = 3, ?string $encoding = null, bool $double_encode = true",
    "string"),
   ("html_entity_decode", "string $string, int $flags = 3, ?string $encoding = null", "string"),
   ("addslashes", "string $string", "string"),
   ("stripslashes", "string $string", "string"),
   ("strip_tags", "string $string, array|string|null $allowed_tags = null", "string"),
   ("wordwrap",
    "string $string, int $width = 75, string $break = \"\\n\", bool $cut_long_words = false",
    "string"),
   ("md5", "string $string, bool $binary = false", "string"),
   ("sha1", "string $string, bool $binary = false", "string"),
   ("crc32", "string $string", "int"),
   ("hash", "string $algo, string $data, bool $binary = false", "string"),
   ("base64_encode", "string $string", "string"),
   ("base64_decode", "string $string, bool $strict = false", "string|false"),
   ("bin2hex", "string $string", "string"),
   ("hex2bin", "string $string", "string|false"),
   ("urlencode", "string $string", "string"),
   ("urldecode", "string $string", "string"),
   ("rawurlencode", "string $string", "string"),
   ("http_build_query",
    "array|object $data, string $numeric_prefix = \"\", ?string $arg_separator = null",
    "string"),
   ("parse_str", "string $string, array &$result", "void"),
   ("parse_url", "string $url, int $component = -1", "mixed"),
   ("json_encode", "mixed $value, int $flags = 0, int $depth = 512", "string|false"),
   ("json_decode",
    "string $json, ?bool $associative = null, int $depth = 512, int $flags = 0",
    "mixed"),
   ("serialize", "mixed $value", "string"),
   ("unserialize", "string $data, array $options = []", "mixed"),
   ("mb_strlen", "string $string, ?string $encoding = null", "int"),
   ("mb_substr",
    "string $string, int $start, ?int $length = null, ?string $encoding = null",
    "string"),
   ("mb_strtolower", "string $string, ?string $encoding = null", "string"),
   ("mb_strtoupper", "string $string, ?string $encoding = null", "string"),
   ("mb_strpos",
    "string $haystack, string $needle, int $offset = 0, ?string $encoding = null",
    "int|false"),
   ("chr", "int $codepoint", "string"),
   ("ord", "string $character", "int"),
   ("dirname", "string $path, int $levels = 1", "string"),
   ("basename", "string $path, string $suffix = \"\"", "string"),
   ("pathinfo", "string $path, int $flags = 15", "array|string"),
   ("uniqid", "string $prefix = \"\", bool $more_entropy = false", "string"),
   ("lcg_value", "", "float"),
   ("ctype_digit", "mixed $text", "bool"),
   ("ctype_alpha", "mixed $text", "bool"),
   ("ctype_space", "mixed $text", "bool")]

/-- Regular expressions. -/
def regexFunctions : List (String × String × String) :=
  [("preg_match",
    "string $pattern, string $subject, array &$matches = null, int $flags = 0, int $offset = 0",
    "int|false"),
   ("preg_match_all",
    "string $pattern, string $subject, array &$matches = null, int $flags = 1, int $offset = 0",
    "int|false"),
   ("preg_replace",
    "string|array $pattern, string|array $replacement, string|array $subject, " ++
      "int $limit = -1, int &$count = null",
    "string|array|null"),
   ("preg_replace_callback",
    "string|array $pattern, callable $callback, string|array $subject, " ++
      "int $limit = -1, int &$count = null, int $flags = 0",
    "string|array|null"),
   ("preg_split",
    "string $pattern, string $subject, int $limit = -1, int $flags = 0",
    "string[]|false"),
   ("preg_quote", "string $str, ?string $delimiter = null", "string"),
   ("preg_grep", "string $pattern, array $array, int $flags = 0", "array|false"),
   ("preg_last_error", "", "int")]

/-- Arrays. -/
def arrayFunctions : List (String × String × String) :=
  [("count", "Countable|array $value, int $mode = 0", "int"),
   ("sizeof", "Countable|array $value, int $mode = 0", "int"),
   ("array_map", "?callable $callback, array $array, array ...$arrays", "array"),
   ("array_filter", "array $array, ?callable $callback = null, int $mode = 0", "array"),
   ("array_reduce", "array $array, callable $callback, mixed $initial = null", "mixed"),
   ("array_walk", "array &$array, callable $callback, mixed $arg = null", "bool"),
   ("array_keys", "array $array, mixed $filter_value = null, bool $strict = false", "array"),
   ("array_values", "array $array", "array"),
   ("array_merge", "array ...$arrays", "array"),
   ("array_merge_recursive", "array ...$arrays", "array"),
   ("array_replace", "array $array, array ...$replacements", "array"),
   ("array_combine", "array $keys, array $values", "array"),
   ("array_flip", "array $array", "array"),
   ("array_slice",
    "array $array, int $offset, ?int $length = null, bool $preserve_keys = false",
    "array"),
   ("array_splice",
    "array &$array, int $offset, ?int $length = null, mixed $replacement = []",
    "array"),
   ("array_push", "array &$array, mixed ...$values", "int"),
   ("array_pop", "array &$array", "mixed"),
   ("array_shift", "array &$array", "mixed"),
   ("array_unshift", "array &$array, mixed ...$values", "int"),
   ("array_key_exists", "string|int $key, array $array", "bool"),
   ("key_exists", "string|int $key, array $array", "bool"),
   ("array_search", "mixed $needle, array $haystack, bool $strict = false", "int|string|false"),
   ("in_array", "mixed $needle, array $haystack, bool $strict = false", "bool"),
   ("array_unique", "array $array, int $flags = 2", "array"),
   ("array_reverse", "array $array, bool $preserve_keys = false", "array"),
   ("array_sum", "array $array", "int|float"),
   ("array_product", "array $array", "int|float"),
   ("array_fill", "int $start_index, int $count, mixed $value", "array"),
   ("array_fill_keys", "array $keys, mixed $value", "array"),
   ("array_pad", "array $array, int $length, mixed $value", "array"),
   ("array_key_first", "array $array", "int|string|null"),
   ("array_key_last", "array $array", "int|string|null"),
   ("array_column",
    "array $array, int|string|null $column_key, int|string|null $index_key = null",
    "array"),
   ("array_diff", "array $array, array ...$arrays", "array"),
   ("array_diff_key", "array $array, array ...$arrays", "array"),
   ("array_intersect", "array $array, array ...$arrays", "array"),
   ("array_intersect_key", "array $array, array ...$arrays", "array"),
   ("array_chunk", "array $array, int $length, bool $preserve_keys = false", "array[]"),
   ("array_is_list", "array $array", "bool"),
   ("array_rand", "array $array, int $num = 1", "int|string|array"),
   ("range", "mixed $start, mixed $end, int|float $step = 1", "array"),
   ("compact", "mixed $var_name, mixed ...$var_names", "array"),
   ("extract", "array &$array, int $flags = 0, string $prefix = \"\"", "int"),
   ("sort", "array &$array, int $flags = 0", "bool"),
   ("rsort", "array &$array, int $flags = 0", "bool"),
   ("ksort", "array &$array, int $flags = 0", "bool"),
   ("krsort", "array &$array, int $flags = 0", "bool"),
   ("asort", "array &$array, int $flags = 0", "bool"),
   ("arsort", "array &$array, int $flags = 0", "bool"),
   ("usort", "array &$array, callable $callback", "bool"),
   ("uasort", "array &$array, callable $callback", "bool"),
   ("uksort", "array &$array, callable $callback", "bool"),
   ("shuffle", "array &$array", "bool"),
   ("current", "array|object $array", "mixed"),
   ("key", "array|object $array", "int|string|null"),
   ("next", "array|object &$array", "mixed"),
   ("prev", "array|object &$array", "mixed"),
   ("reset", "array|object &$array", "mixed"),
   ("end", "array|object &$array", "mixed"),
   ("iterator_to_array", "Traversable|array $iterator, bool $preserve_keys = true", "array"),
   ("iterator_count", "Traversable|array $iterator", "int")]

/-- Numbers. -/
def mathFunctions : List (String × String × String) :=
  [("abs", "int|float $num", "int|float"),
   ("ceil", "int|float $num", "float"),
   ("floor", "int|float $num", "float"),
   ("round", "int|float $num, int $precision = 0, int $mode = 1", "float"),
   ("min", "mixed $value, mixed ...$values", "mixed"),
   ("max", "mixed $value, mixed ...$values", "mixed"),
   ("intdiv", "int $num1, int $num2", "int"),
   ("fmod", "float $num1, float $num2", "float"),
   ("sqrt", "float $num", "float"),
   ("exp", "float $num", "float"),
   ("log", "float $num, float $base = M_E", "float"),
   ("log10", "float $num", "float"),
   ("sin", "float $num", "float"),
   ("cos", "float $num", "float"),
   ("tan", "float $num", "float"),
   ("pow", "mixed $num, mixed $exponent", "int|float"),
   ("pi", "", "float"),
   ("rand", "int $min = 0, int $max = 0", "int"),
   ("mt_rand", "int $min = 0, int $max = 0", "int"),
   ("random_int", "int $min, int $max", "int"),
   ("random_bytes", "int $length", "string"),
   ("is_nan", "float $num", "bool"),
   ("is_finite", "float $num", "bool"),
   ("is_infinite", "float $num", "bool"),
   ("base_convert", "string $num, int $from_base, int $to_base", "string"),
   ("bindec", "string $binary_string", "int|float"),
   ("hexdec", "string $hex_string", "int|float"),
   ("octdec", "string $octal_string", "int|float"),
   ("dechex", "int $num", "string"),
   ("decbin", "int $num", "string"),
   ("decoct", "int $num", "string")]

/-- Types, classes and functions. -/
def typeFunctions : List (String × String × String) :=
  [("is_int", "mixed $value", "bool"),
   ("is_integer", "mixed $value", "bool"),
   ("is_long", "mixed $value", "bool"),
   ("is_float", "mixed $value", "bool"),
   ("is_double", "mixed $value", "bool"),
   ("is_string", "mixed $value", "bool"),
   ("is_bool", "mixed $value", "bool"),
   ("is_array", "mixed $value", "bool"),
   ("is_object", "mixed $value", "bool"),
   ("is_null", "mixed $value", "bool"),
   ("is_numeric", "mixed $value", "bool"),
   ("is_callable",
    "mixed $value, bool $syntax_only = false, string &$callable_name = null",
    "bool"),
   ("is_iterable", "mixed $value", "bool"),
   ("is_countable", "mixed $value", "bool"),
   ("is_scalar", "mixed $value", "bool"),
   ("is_resource", "mixed $value", "bool"),
   ("intval", "mixed $value, int $base = 10", "int"),
   ("floatval", "mixed $value", "float"),
   ("doubleval", "mixed $value", "float"),
   ("strval", "mixed $value", "string"),
   ("boolval", "mixed $value", "bool"),
   ("settype", "mixed &$var, string $type", "bool"),
   ("gettype", "mixed $value", "string"),
   ("get_debug_type", "mixed $value", "string"),
   ("get_class", "object $object = null", "string"),
   ("get_parent_class", "object|string $object_or_class = null", "string|false"),
   ("get_object_vars", "object $object", "array"),
   ("get_called_class", "", "string"),
   ("method_exists", "object|string $object_or_class, string $method", "bool"),
   ("property_exists", "object|string $object_or_class, string $property", "bool"),
   ("class_exists", "string $class, bool $autoload = true", "bool"),
   ("interface_exists", "string $interface, bool $autoload = true", "bool"),
   ("trait_exists", "string $trait, bool $autoload = true", "bool"),
   ("function_exists", "string $function", "bool"),
   ("is_a", "mixed $object_or_class, string $class, bool $allow_string = false", "bool"),
   ("is_subclass_of", "mixed $object_or_class, string $class, bool $allow_string = true", "bool"),
   ("spl_object_id", "object $object", "int"),
   ("spl_object_hash", "object $object", "string"),
   ("spl_autoload_register",
    "?callable $callback = null, bool $throw = true, bool $prepend = false",
    "bool"),
   ("call_user_func", "callable $callback, mixed ...$args", "mixed"),
   ("call_user_func_array", "callable $callback, array $args", "mixed"),
   ("func_get_args", "", "array"),
   ("func_num_args", "", "int"),
   ("define", "string $constant_name, mixed $value, bool $case_insensitive = false", "bool"),
   ("defined", "string $constant_name", "bool"),
   ("constant", "string $name", "mixed"),
   ("filter_var", "mixed $value, int $filter = 516, array|int $options = 0", "mixed"),
   ("version_compare",
    "string $version1, string $version2, ?string $operator = null",
    "int|bool"),
   ("assert", "mixed $assertion, mixed $description = null", "bool")]

/-- Output and the running system. -/
def outputFunctions : List (String × String × String) :=
  [("var_dump", "mixed $value, mixed ...$values", "void"),
   ("print_r", "mixed $value, bool $return = false", "string|bool"),
   ("var_export", "mixed $value, bool $return = false", "?string"),
   ("error_log",
    "string $message, int $message_type = 0, ?string $destination = null, " ++
      "?string $additional_headers = null",
    "bool"),
   ("trigger_error", "string $message, int $error_level = E_USER_NOTICE", "bool"),
   ("user_error", "string $message, int $error_level = E_USER_NOTICE", "bool"),
   ("header", "string $header, bool $replace = true, int $response_code = 0", "void"),
   ("headers_sent", "", "bool"),
   ("http_response_code", "int $response_code = 0", "int|bool"),
   ("ob_start", "?callable $callback = null, int $chunk_size = 0, int $flags = 112", "bool"),
   ("ob_get_clean", "", "string|false"),
   ("ob_end_clean", "", "bool"),
   ("flush", "", "void"),
   ("error_reporting", "?int $error_level = null", "int"),
   ("ini_set", "string $option, string|int|float|bool|null $value", "string|false"),
   ("ini_get", "string $option", "string|false"),
   ("set_error_handler", "?callable $callback, int $error_levels = E_ALL", "mixed"),
   ("set_exception_handler", "?callable $callback", "mixed"),
   ("register_shutdown_function", "callable $callback, mixed ...$args", "void"),
   ("getenv", "?string $name = null, bool $local_only = false", "string|array|false"),
   ("putenv", "string $assignment", "bool"),
   ("debug_backtrace", "int $options = 1, int $limit = 0", "array"),
   ("memory_get_usage", "bool $real_usage = false", "int"),
   ("gc_collect_cycles", "", "int"),
   ("phpversion", "?string $extension = null", "string|false"),
   ("php_sapi_name", "", "string|false"),
   ("set_time_limit", "int $seconds", "bool"),
   ("password_hash", "string $password, string|int|null $algo, array $options = []", "string"),
   ("password_verify", "string $password, string $hash", "bool")]

/-- Files. -/
def fileFunctions : List (String × String × String) :=
  [("file_exists", "string $filename", "bool"),
   ("is_file", "string $filename", "bool"),
   ("is_dir", "string $filename", "bool"),
   ("is_readable", "string $filename", "bool"),
   ("is_writable", "string $filename", "bool"),
   ("file_get_contents",
    "string $filename, bool $use_include_path = false, mixed $context = null, " ++
      "int $offset = 0, ?int $length = null",
    "string|false"),
   ("file_put_contents",
    "string $filename, mixed $data, int $flags = 0, mixed $context = null",
    "int|false"),
   ("file", "string $filename, int $flags = 0, mixed $context = null", "string[]|false"),
   ("fopen",
    "string $filename, string $mode, bool $use_include_path = false, mixed $context = null",
    "resource|false"),
   ("fclose", "resource $stream", "bool"),
   ("fread", "resource $stream, int $length", "string|false"),
   ("fwrite", "resource $stream, string $data, ?int $length = null", "int|false"),
   ("fputs", "resource $stream, string $data, ?int $length = null", "int|false"),
   ("fgets", "resource $stream, ?int $length = null", "string|false"),
   ("fgetcsv", "resource $stream, ?int $length = null, string $separator = \",\"", "array|false"),
   ("feof", "resource $stream", "bool"),
   ("unlink", "string $filename, mixed $context = null", "bool"),
   ("mkdir",
    "string $directory, int $permissions = 0777, bool $recursive = false, mixed $context = null",
    "bool"),
   ("rmdir", "string $directory, mixed $context = null", "bool"),
   ("scandir",
    "string $directory, int $sorting_order = 0, mixed $context = null",
    "string[]|false"),
   ("glob", "string $pattern, int $flags = 0", "string[]|false"),
   ("realpath", "string $path", "string|false"),
   ("touch", "string $filename, ?int $mtime = null, ?int $atime = null", "bool"),
   ("copy", "string $from, string $to, mixed $context = null", "bool"),
   ("rename", "string $from, string $to, mixed $context = null", "bool"),
   ("filesize", "string $filename", "int|false"),
   ("filemtime", "string $filename", "int|false"),
   ("tempnam", "string $directory, string $prefix", "string|false"),
   ("sys_get_temp_dir", "", "string"),
   ("getcwd", "", "string|false"),
   ("chdir", "string $directory", "bool")]

/-- Time. -/
def timeFunctions : List (String × String × String) :=
  [("time", "", "int"),
   ("microtime", "bool $as_float = false", "string|float"),
   ("hrtime", "bool $as_number = false", "array|int|float|false"),
   ("date", "string $format, ?int $timestamp = null", "string"),
   ("gmdate", "string $format, ?int $timestamp = null", "string"),
   ("mktime",
    "int $hour, ?int $minute = null, ?int $second = null, ?int $month = null, " ++
      "?int $day = null, ?int $year = null",
    "int|false"),
   ("strtotime", "string $datetime, ?int $baseTimestamp = null", "int|false"),
   ("checkdate", "int $month, int $day, int $year", "bool"),
   ("date_default_timezone_set", "string $timezoneId", "bool"),
   ("date_default_timezone_get", "", "string"),
   ("sleep", "int $seconds", "int"),
   ("usleep", "int $microseconds", "void")]

end PhpCheck.Builtin
